/-
# How long a read waits, to the cycle

The first response to a held read comes in a cycle of its own (`Link.AnsweredIn`), and a blocking
read is decided by its number: it returns in that cycle if the budget reaches so far, and gives up
in the last cycle of the budget otherwise (`Link.AnsweredIn.run_readWord`).

For a read that is on the link, or that can start at once, the number is known exactly
(`Regular.answeredIn_of_reading`, `Regular.answeredIn_of_idle`).  The serial clock runs on between
two reads, so it depends on where the divider is.  A read that follows another one at once finds the
divider where the answer has left it, one cycle after its restart (`Link.restarted_of_ok`).
-/

import Mathlib
import WeightLink.Proofs.Flash.Budget

namespace WeightLink
namespace Flash

namespace Engine

variable {cfg : Config} {e : Engine}

/-- The divider has just restarted when the engine is about to answer. -/
def Restarted (e : Engine) : Prop := e.phase = .finish → e.divider = 0

theorem restarted_next (e : Engine) (request : Request) (miso : Bool) :
    (e.next cfg request miso).Restarted := by
  intro hf
  by_cases hi : e.phase = .idle
  · -- A cycle without a frame on the link does not end one.
    rw [next_idle request miso hi] at hf
    rcases (e.divide cfg).settled_or with hset | ⟨ha, hd | ⟨hd, opcode, ho⟩⟩
    · rw [idle_settled request hset] at hf
      cases request <;> simp [serve, start, divide, hi] at hf
    · rw [idle_pause request ha hd] at hf
      simp [divide, hi] at hf
    · rw [idle_wake request ha hd ho] at hf
      simp [start] at hf
  by_cases hend : e.phase = .finish
  · rw [next_finish request miso hend] at hf
    cases hf
  cases hs : e.steps cfg with
  | false =>
    rw [next_wait request miso hi hend hs] at hf
    exact absurd hf hend
  | true => grind [next, endWake]

/-- The divider is advanced modulo the clock period. -/
theorem divider_divide (h : e.Sound cfg) :
    (e.divide cfg).divider = (e.divider + 1) % cfg.period := by
  have hle := h.divider_le
  unfold divide Config.period
  cases hs : e.steps cfg with
  | true =>
    have heq : e.divider = cfg.divider.toNat := by simpa [steps] using hs
    simp [heq]
  | false =>
    have hne : e.divider ≠ cfg.divider.toNat := by simpa [steps] using hs
    simp only [Bool.false_eq_true, if_false]
    rw [Nat.mod_eq_of_lt (by omega)]

end Engine

namespace Link

variable {cfg : Config} {l : Link} {address word : UInt32} {n : Nat}

/-- The link after some cycles in which a request was presented. -/
def held (request : Request) : Nat → Link → Link
  | 0, l => l
  | n + 1, l => held request n (l.cycle request).2

/-- The response in cycle `n` of a held read, the first cycle being cycle `1`. -/
def responseIn (address : UInt32) : Nat → Link → Option UInt32
  | 0, _ => none
  | n + 1, l => ((held (.read address) n l).cycle (.read address)).1.response

/-- The first response to a held read is in cycle `n`. -/
structure AnsweredIn (address : UInt32) (n : Nat) (word : UInt32) (l : Link) : Prop where
  answer : responseIn address n l = some word
  first : ∀ k < n, responseIn address k l = none

namespace AnsweredIn

theorem now (h : (l.cycle (.read address)).1.response = some word) :
    AnsweredIn address 1 word l where
  answer := h
  first k hk := by
    obtain rfl : k = 0 := by omega
    rfl

/-- A cycle without a response puts the answer off by one. -/
theorem later (hn : (l.cycle (.read address)).1.response = none)
    (h : AnsweredIn address n word (l.cycle (.read address)).2) :
    AnsweredIn address (n + 1) word l := by
  cases n with
  | zero => exact nomatch h.answer
  | succ n =>
    refine ⟨h.answer, fun k hk => ?_⟩
    rcases k with _ | _ | k
    · rfl
    · exact hn
    · exact h.first (k + 1) (by omega)

theorem pos (h : AnsweredIn address n word l) : 0 < n := by
  cases n with
  | zero => exact nomatch h.answer
  | succ n => exact Nat.succ_pos n

theorem unique {n' : Nat} {word' : UInt32} (h : AnsweredIn address n word l)
    (h' : AnsweredIn address n' word' l) : n = n' ∧ word = word' := by
  rcases Nat.lt_trichotomy n n' with hlt | rfl | hgt
  · exact nomatch (h'.first n hlt).symm.trans h.answer
  · exact ⟨rfl, Option.some.inj (h.answer.symm.trans h'.answer)⟩
  · exact nomatch (h.first n' hgt).symm.trans h'.answer

/-- **A read that is held for some cycles** is answered if they reach so far. -/
theorem hold_eq (h : AnsweredIn address n word l) (m : Nat) :
    hold (.read address) Outputs.response m l =
      if n ≤ m then (some word, held (.read address) n l)
      else (none, held (.read address) m l) := by
  induction m generalizing n l with
  | zero =>
    rw [if_neg (Nat.not_le_of_lt h.pos)]
    rfl
  | succ m ih =>
    simp only [hold]
    rcases n with _ | _ | n
    · exact absurd h.pos (Nat.lt_irrefl 0)
    · have hnow : (l.cycle (.read address)).1.response = some word := h.answer
      rw [hnow, if_pos (Nat.le_add_left 1 m)]
      rfl
    · have hnone : (l.cycle (.read address)).1.response = none := h.first 1 (by omega)
      have hrest : AnsweredIn address (n + 1) word (l.cycle (.read address)).2 := by
        refine ⟨h.answer, fun k hk => ?_⟩
        cases k with
        | zero => rfl
        | succ k => exact h.first (k + 2) (by omega)
      simp only [hnone, ih hrest, Nat.succ_le_succ_iff]
      rfl

end AnsweredIn

/-- Held cycles are counted, and leave the latencies alone. -/
theorem stats_held (request : Request) (n : Nat) (l : Link) :
    (held request n l).stats.total = l.stats.total + n ∧
      (held request n l).stats.latency = l.stats.latency := by
  induction n generalizing l with
  | zero => exact ⟨rfl, rfl⟩
  | succ n ih =>
    obtain ⟨htotal, hlatency⟩ := ih (l.cycle request).2
    refine ⟨htotal.trans ?_, hlatency⟩
    change l.stats.total + 1 + n = _
    omega

/-- **A blocking read returns in the cycle of the first response**, with that cycle as its latency,
or gives up in the last cycle of its budget. -/
theorem AnsweredIn.run_readWord (h : AnsweredIn address n word l) :
    (n ≤ l.config.budget → ((readWord address).run l).result = .ok word ∧
      ((readWord address).run l).state =
        (held (.read address) n l).withLatency (l.stats.latency.add n)) ∧
    (l.config.budget < n → ((readWord address).run l).result =
        .error (.readTimeout address l.config.budget
          (held (.read address) l.config.budget l).engine.phase) ∧
      ((readWord address).run l).state = held (.read address) l.config.budget l) := by
  rw [Link.run_readWord, h.hold_eq]
  constructor
  · intro hle
    obtain ⟨htotal, hlatency⟩ := stats_held (.read address) n l
    have hspent : (held (.read address) n l).stats.total - l.stats.total = n := by omega
    rw [if_pos hle]
    simp only [hspent, hlatency]
    exact ⟨trivial, rfl⟩
  · intro hlt
    obtain ⟨htotal, -⟩ := stats_held (.read address) l.config.budget l
    simp only [if_neg (Nat.not_le_of_lt hlt), htotal, Nat.add_sub_cancel_left]
    exact ⟨trivial, trivial⟩

/-! ### When the answer comes -/

namespace Regular

/-- A held read is answered. -/
theorem answeredIn (h : Regular cfg l) (address : UInt32) :
    ∃ n word, AnsweredIn address n word l := by
  -- Every cycle takes one off what is left of the read.
  induction hleft : l.engine.readLeft cfg.engine using Nat.strong_induction_on generalizing l with
  | h left ih =>
    cases hr : (l.cycle (.read address)).1.response with
    | some word => exact ⟨1, word, .now hr⟩
    | none =>
      have hnext := Engine.readLeft_next h.sound ((Engine.response_eq_none_iff _).1 hr) address
        l.miso
      have hlt : (l.cycle (.read address)).2.engine.readLeft cfg.engine < left := by
        rw [cycle_engine, h.config_eq]
        omega
      obtain ⟨n, word, hn⟩ := ih _ hlt (h.cycle _) rfl
      exact ⟨n + 1, word, hn.later hr⟩

/-- **A read on the link is answered in the cycle after its last step.** -/
theorem answeredIn_of_reading (h : Regular cfg l) (hr : l.engine.reading = true)
    (address : UInt32) :
    ∃ word, AnsweredIn address (l.engine.frameLeft cfg.engine + 1) word l := by
  induction hleft : l.engine.frameLeft cfg.engine generalizing l with
  | zero =>
    cases hw : (l.cycle (.read address)).1.response with
    | some word => exact ⟨word, .now hw⟩
    | none =>
      have hi : l.engine.phase ≠ .idle := by
        intro hi
        simp [h.sound.reading_eq, hi] at hr
      have hnext := Engine.frameLeft_next h.sound hi ((Engine.response_eq_none_iff _).1 hw)
        (.read address) l.miso
      omega
  | succ left ih =>
    have hi : l.engine.phase ≠ .idle := by
      intro hi
      simp [Engine.frameLeft, hi] at hleft
    have hf : l.engine.phase ≠ .finish := by
      intro hf
      simp [Engine.frameLeft, hf] at hleft
    have hnone : (l.cycle (.read address)).1.response = none :=
      (Engine.response_eq_none_iff _).2 hf
    have hnext := Engine.frameLeft_next h.sound hi hf (.read address) l.miso
    obtain ⟨hreading, -⟩ := h.sound.next_reading hr hf (.read address) l.miso
    rw [← h.config_eq] at hnext hreading
    obtain ⟨word, hword⟩ := ih (h.cycle (.read address)) hreading (by
      rw [cycle_engine, ← h.config_eq]
      rw [← h.config_eq] at hleft
      omega)
    exact ⟨word, hword.later hnone⟩

/-- **A read that can start at once** waits for its own frame only, from wherever the divider is. -/
theorem answeredIn_of_idle (h : Regular cfg l) (hi : l.engine.phase = .idle)
    (ha : l.engine.awake = true) (address : UInt32) :
    ∃ word, AnsweredIn address
      (2 + (cfg.engine.period - (l.engine.divider + 1) % cfg.engine.period) +
        160 * cfg.engine.period) word l := by
  have hnone : (l.cycle (.read address)).1.response = none :=
    (Engine.response_eq_none_iff _).2 (by simp [hi])
  have hset : (l.engine.divide cfg.engine).settled = true := by
    simp [Engine.settled, Engine.divide, ha]
  have hstarted : (l.cycle (.read address)).2.engine =
      ({ l.engine.divide cfg.engine with awake := true } : Engine).start
        (Frame.read (cfg.engine.translate address)) false := by
    rw [cycle_engine, h.config_eq, Engine.next_idle _ _ hi, Engine.idle_settled _ hset]
    rfl
  have hreading : (l.cycle (.read address)).2.engine.reading = true := by
    rw [hstarted]
    rfl
  obtain ⟨word, hword⟩ := (h.cycle (.read address)).answeredIn_of_reading hreading address
  have hframe : (l.cycle (.read address)).2.engine.frameLeft cfg.engine =
      cfg.engine.period - (l.engine.divider + 1) % cfg.engine.period +
        160 * cfg.engine.period := by
    rw [hstarted, Engine.frameLeft_of_busy (by simp [Engine.start]) (by simp [Engine.start]),
      ← Engine.divider_divide h.sound]
    rfl
  refine ⟨word, ?_⟩
  have hlater := hword.later hnone
  rw [hframe] at hlater
  convert hlater using 1
  omega

end Regular

/-! ### Reads that follow each other -/

theorem Driven.restarted (h : Driven cfg l) : l.engine.Restarted := by
  have hpowerOn (cfg : Engine.Config) : (Engine.powerOn cfg).Restarted := fun hf => nomatch hf
  refine h.keeps (P := fun l => l.engine.Restarted) (fun l h => ?_)
    (fun l request _ => Engine.restarted_next _ _ _) (fun _ _ h => h) (fun l _ => hpowerOn _)
    (fun _ _ _ _ _ h => h) fun _ h => h
  obtain ⟨-, -, he, -⟩ := create_eq_ok h
  rw [he]
  exact hpowerOn _

/-- **What an answered read leaves**: no frame on the link, and the divider one cycle after its
restart. -/
theorem restarted_of_ok (h : Driven cfg l)
    (hw : ((readWord address).run l).result = .ok word) :
    ((readWord address).run l).state.engine.phase = .idle ∧
      ((readWord address).run l).state.engine.awake = true ∧
      ((readWord address).run l).state.engine.divider = 1 % cfg.engine.period := by
  have hr : (readWord address).run l = ⟨.ok word, ((readWord address).run l).state,
      ((readWord address).run l).events⟩ := by rw [← hw]
  obtain ⟨last, ⟨hlast, hrestarted⟩, hanswer, hstate⟩ :=
    readWord_some (P := fun l => Regular cfg l ∧ l.engine.Restarted)
      (fun _ hp _ => ⟨hp.1.cycle _, Engine.restarted_next _ _ _⟩) ⟨h.regular, h.restarted⟩ hr
  have hf := Engine.phase_of_response hanswer
  have hawake := (hlast.sound.reads (by simp [hf]) (hlast.sound.waking_of_finish hf)).1
  have hdivider := Engine.divider_divide hlast.sound
  rw [hrestarted hf] at hdivider
  rw [hstate]
  change (last.engine.next last.config.engine (.read address) last.miso).phase = .idle ∧
    (last.engine.next last.config.engine (.read address) last.miso).awake = true ∧
    (last.engine.next last.config.engine (.read address) last.miso).divider = _
  rw [hlast.config_eq, Engine.next_finish _ _ hf]
  exact ⟨rfl, hawake, hdivider⟩

/-- From one answer to the next, reads that follow each other take whole clock periods: 160, and as
many as three cycles need. -/
theorem following_eq {period : Nat} (hp : 0 < period) :
    2 + (period - (1 % period + 1) % period) + 160 * period =
      period * (160 + 3 ⌈/⌉ period) := by
  rw [Nat.ceilDiv_eq_add_pred_div]
  match period, hp with
  | 1, _ => rfl
  | 2, _ => rfl
  | period + 3, _ =>
    have hceil : (3 + (period + 3) - 1) / (period + 3) = 1 :=
      Nat.div_eq_of_lt_le (by omega) (by omega)
    rw [hceil, Nat.mod_eq_of_lt (show 1 < period + 3 by omega),
      Nat.mod_eq_of_lt (show 1 + 1 < period + 3 by omega)]
    omega

/-- **Latency and hang, to the cycle.**  Whatever was done to the link since power-on, a read that
is presented to an engine without a frame on the link, and with its device awake, waits for the rest
of a clock period and 160 more, and for its start and its answer; a read that follows an answered
one waits for whole periods.  Every read is answered some time, and with a configured budget a
blocking read returns in the cycle of the answer, and counts its latency, if that cycle is in the
budget; otherwise it gives up in the last cycle of the budget and counts nothing. -/
theorem waits_exact (cfg : Config) (l : Link) (h : Driven cfg l) (address : UInt32) :
    (l.engine.phase = .idle → l.engine.awake = true → ∃ n word, AnsweredIn address n word l ∧
      n = 2 + (cfg.engine.period - (l.engine.divider + 1) % cfg.engine.period) +
        160 * cfg.engine.period ∧
      160 * cfg.engine.period + 3 ≤ n ∧ n ≤ 161 * cfg.engine.period + 2) ∧
    (∀ asked given, ((readWord asked).run l).result = .ok given → ∃ word, AnsweredIn address
      (cfg.engine.period * (160 + 3 ⌈/⌉ cfg.engine.period)) word
        ((readWord asked).run l).state) ∧
    ∃ n word, AnsweredIn address n word l ∧ (0 < cfg.maxWaitCycles →
      (n ≤ cfg.maxWaitCycles →
        ((readWord address).run l).result = .ok word ∧
        ((readWord address).run l).state.stats.total = l.stats.total + n ∧
        ((readWord address).run l).state.stats.latency = l.stats.latency.add n) ∧
      (cfg.maxWaitCycles < n →
        (∃ phase, ((readWord address).run l).result =
          .error (.readTimeout address cfg.maxWaitCycles phase)) ∧
        ((readWord address).run l).state.stats.total = l.stats.total + cfg.maxWaitCycles ∧
        ((readWord address).run l).state.stats.latency = l.stats.latency)) := by
  have hreg := h.regular
  have hperiod : 0 < cfg.engine.period := Nat.succ_pos _
  refine ⟨fun hi ha => ?_, fun asked given hgiven => ?_, ?_⟩
  · obtain ⟨word, hword⟩ := hreg.answeredIn_of_idle hi ha address
    have hrest := Nat.mod_lt (l.engine.divider + 1) hperiod
    exact ⟨_, word, hword, rfl, by omega, by omega⟩
  · obtain ⟨hi, ha, hdivider⟩ := restarted_of_ok h hgiven
    have hafter : Driven cfg ((readWord asked).run l).state := .readWord asked h
    obtain ⟨word, hword⟩ := hafter.regular.answeredIn_of_idle hi ha address
    rw [hdivider, following_eq hperiod] at hword
    exact ⟨word, hword⟩
  · obtain ⟨n, word, hn⟩ := hreg.answeredIn address
    refine ⟨n, word, hn, fun hmax => ?_⟩
    have hbudget : l.config.budget = cfg.maxWaitCycles := by
      rw [hreg.config_eq, Config.budget, if_pos hmax]
    obtain ⟨hreturns, hhangs⟩ := hn.run_readWord
    rw [hbudget] at hreturns hhangs
    refine ⟨fun hle => ?_, fun hlt => ?_⟩
    · obtain ⟨hresult, hstate⟩ := hreturns hle
      rw [hstate]
      exact ⟨hresult, (stats_held _ n l).1, rfl⟩
    · obtain ⟨hresult, hstate⟩ := hhangs hlt
      rw [hstate]
      exact ⟨⟨_, hresult⟩, stats_held _ _ l⟩

/-- A clock of half the rate, and a budget that is enough for the first read only. -/
def tightConfig : Config := ⟨⟨0, 1, false, 0⟩, 8, false, 323⟩

def tight : Link := (create tightConfig).toOption.get (by decide)

/-- The first read is answered in the last cycle of the budget, the one that follows it a cycle too
late. -/
theorem waits_exact_tight :
    Driven tightConfig tight ∧
    (∃ word, ((readWord 0).run tight).result = .ok word) ∧
    ((readWord 0).run tight).state.stats.latency = ⟨1, 323, 323, 323⟩ ∧
    ∃ phase, ((readWord 4).run ((readWord 0).run tight).state).result =
        .error (.readTimeout 4 323 phase) ∧
      ((readWord 4).run ((readWord 0).run tight).state).state.stats.total = 646 ∧
      ((readWord 4).run ((readWord 0).run tight).state).state.stats.latency =
        ⟨1, 323, 323, 323⟩ := by
  have hfirst : Driven tightConfig tight := .create rfl
  obtain ⟨hidle, -, n, word, hn, hends⟩ := waits_exact tightConfig tight hfirst 0
  obtain ⟨_, _, hn', rfl, -⟩ := hidle rfl rfl
  obtain ⟨rfl, -⟩ := hn.unique hn'
  obtain ⟨hword, htotal, hlatency⟩ := (hends (by decide)).1 (by decide)
  obtain ⟨_, hlate⟩ := (waits_exact tightConfig tight hfirst 4).2.1 0 word hword
  obtain ⟨-, -, m, _, hm, hhangs⟩ := waits_exact tightConfig _ (.readWord 0 hfirst) 4
  obtain ⟨rfl, -⟩ := hm.unique hlate
  obtain ⟨hphase, htotal', hlatency'⟩ := (hhangs (by decide)).2 (by decide)
  rw [htotal] at htotal'
  rw [hlatency] at hlatency' ⊢
  obtain ⟨phase, hphase⟩ := hphase
  exact ⟨hfirst, ⟨word, hword⟩, rfl, phase, hphase, htotal', hlatency'⟩

end Link
end Flash
end WeightLink
