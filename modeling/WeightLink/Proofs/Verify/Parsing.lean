/-
# Verification as a function of the bytes

Which tensors the checks take and what they find is determined by the bytes that a source shows
(`Verify.parse`): over any source, the checks find what the parser finds
(`Verify.runChecks_follows`), and over a blob in memory the whole report is that
(`Verify.run_memory`).

A verification consumes records from the header onwards (`consumed`).  Bytes with the same header
and the same consumed records are verified alike (`Verify.parse_congr`).  Of bytes that are cut
off, a magic or a record that needs more of them is refused as ill-formed (`Verify.parse_cut`).
-/

import WeightLink.Proofs.Blob.Following
import WeightLink.Verify.Run

namespace WeightLink

open WeightLink.Action (Triple)

namespace Verify

open Blob (Parser Reader Tensor Record Agree accepts recordsFrom)
open Blob.Reader (Follows)

/-! ### What the checks find in tensors -/

/-- The sum of the hashes of some tensors. -/
def hashSum (tensors : List Tensor) : UInt32 := tensors.foldr (fun t sum => t.hash + sum) 0

/-- The sum of some element counts. -/
def countSum (counts : List UInt32) : Nat := counts.foldr (fun n sum => n.toNat + sum) 0

/-- What a check finds in its tensors. -/
def findingOf (check : Check) (tensors : List Tensor) : Finding :=
  ⟨check.name, hashSum tensors, check.expected, countSum check.tensors⟩

/-- What the checks find when they take their tensors one after the other. -/
def findingsOf : List Check → List Tensor → List Finding
  | [], _ => []
  | check :: checks, tensors =>
    let n := check.tensors.length
    findingOf check (tensors.take n) :: findingsOf checks (tensors.drop n)

/-- The element counts that the checks ask for, in order. -/
def counts (checks : List Check) : List UInt32 := checks.flatMap Check.tensors

/-- Looks at the magic and runs all checks, with the bytes at hand. -/
def parse (bytes : Bytes) (checks : List Check) (p : Parser) :
    Except Fault (List Finding × Parser) :=
  let p := p.opened bytes
  if accepts bytes then
    (p.tensors bytes (counts checks)).map fun x => (findingsOf checks x.1, x.2)
  else .error (.blobMagic p.magic)

/-- The records that the checks take out of some bytes. -/
def consumed (bytes : Bytes) (checks : List Check) : List Record :=
  recordsFrom bytes Blob.headerBytes (counts checks).length

/-- The header and some records lie inside the bytes. -/
structure Complete (bytes : Bytes) (records : List Record) : Prop where
  header_le : Blob.headerBytes ≤ bytes.size
  stop_le : ∀ record ∈ records, record.stop ≤ bytes.size

instance (bytes : Bytes) (records : List Record) : Decidable (Complete bytes records) :=
  decidable_of_iff (Blob.headerBytes ≤ bytes.size ∧ ∀ record ∈ records, record.stop ≤ bytes.size)
    ⟨fun ⟨hh, hs⟩ => ⟨hh, hs⟩, fun ⟨hh, hs⟩ => ⟨hh, hs⟩⟩

theorem findingsOf_cons {check : Check} {checks : List Check} {ts us : List Tensor}
    (h : ts.length = check.tensors.length) :
    findingsOf (check :: checks) (ts ++ us) = findingOf check ts :: findingsOf checks us := by
  simp only [findingsOf, ← h, List.take_left', List.drop_left']

/-! ### The checks follow the parser -/

section Follows

variable {σ : Type} [Source σ] {I : σ → Prop} {bytes : Bytes} {E : Fault → Prop}

/-- The tensors of a check are those of the parser. -/
theorem sumTensors_follows (h : Source.Shows I bytes E) (p : Parser) (ns : List UInt32) :
    Triple (Follows I p) (sumTensors ns : Action (Reader σ) (UInt32 × Nat))
      (fun x r => I r.source ∧ ∃ ts, p.tensors bytes ns = .ok (ts, r.bare) ∧
        x = (hashSum ts, countSum ns))
      fun e _ => E e ∨ p.tensors bytes ns = .error e := by
  induction ns generalizing p with
  | nil =>
    refine .pure ?_
    rintro r ⟨hs, rfl⟩
    exact ⟨hs, [], rfl, rfl⟩
  | cons n ns ih =>
    have hfirst := (Blob.Reader.tensor_follows h p n).imp_error
      (F := fun e _ => E e ∨ p.tensors bytes (n :: ns) = .error e)
      fun e r => Or.imp id fun he => Parser.tensors_cons_error he.1
    refine .bind hfirst fun t => .of_state fun r ⟨hs, ht⟩ => ?_
    have hrest := (ih r.bare).imp (A := fun r' => r' = r) (by rintro _ rfl; exact ⟨hs, rfl⟩)
      (fun _ _ hq => hq) (F := fun e _ => E e ∨ p.tensors bytes (n :: ns) = .error e)
      fun e r => Or.imp id fun he => by rw [Parser.tensors_cons ht, he]; rfl
    refine .bind hrest fun x => .pure fun r' ⟨hs', ts, hts, hx⟩ => ?_
    obtain rfl := hx
    refine ⟨hs', t :: ts, ?_, rfl⟩
    rw [Parser.tensors_cons ht, hts]
    rfl

theorem runCheck_follows (h : Source.Shows I bytes E) (p : Parser) (check : Check) :
    Triple (Follows I p) (runCheck check : Action (Reader σ) Finding)
      (fun f r => I r.source ∧ ∃ ts, p.tensors bytes check.tensors = .ok (ts, r.bare) ∧
        f = findingOf check ts)
      fun e _ => E e ∨ p.tensors bytes check.tensors = .error e := by
  refine .bind (sumTensors_follows h p check.tensors) fun x => .pure fun r ⟨hs, ts, hts, hx⟩ => ?_
  obtain rfl := hx
  exact ⟨hs, ts, hts, rfl⟩

theorem runEach_follows (h : Source.Shows I bytes E) (p : Parser) (checks : List Check) :
    Triple (Follows I p) (runEach checks : Action (Reader σ) (List Finding))
      (fun fs r => I r.source ∧ ∃ ts, p.tensors bytes (counts checks) = .ok (ts, r.bare) ∧
        fs = findingsOf checks ts)
      fun e _ => E e ∨ p.tensors bytes (counts checks) = .error e := by
  induction checks generalizing p with
  | nil =>
    refine .pure ?_
    rintro r ⟨hs, rfl⟩
    exact ⟨hs, [], rfl, rfl⟩
  | cons check checks ih =>
    have happend : p.tensors bytes (counts (check :: checks)) = _ :=
      Parser.tensors_append bytes p check.tensors (counts checks)
    have hfirst := (runCheck_follows h p check).imp_error
      (F := fun e _ => E e ∨ p.tensors bytes (counts (check :: checks)) = .error e)
      fun e r => Or.imp id fun he => by rw [happend, he]; rfl
    refine .bind hfirst fun f => .of_state fun r ⟨hs, ts, hts, hf⟩ => ?_
    have hrest := (ih r.bare).imp (A := fun r' => r' = r) (by rintro _ rfl; exact ⟨hs, rfl⟩)
      (F := fun e _ => E e ∨ p.tensors bytes (counts (check :: checks)) = .error e)
      (fun _ _ hq => hq) fun e r => Or.imp id fun he => by
        rw [happend, hts]
        exact congrArg (Except.map _) he
    refine .bind hrest fun fs => .pure fun r' ⟨hs', us, hus, hfs⟩ => ⟨hs', ts ++ us, ?_, ?_⟩
    · rw [happend, hts]
      exact congrArg (Except.map _) hus
    · rw [hf, hfs, findingsOf_cons (Parser.length_tensors hts)]

/-- **The checks find what the parser finds.** -/
theorem runChecks_follows (h : Source.Shows I bytes E) (p : Parser) (checks : List Check) :
    Triple (Follows I p) (runChecks checks : Action (Reader σ) (List Finding))
      (fun fs r => I r.source ∧ parse bytes checks p = .ok (fs, r.bare))
      fun e _ => E e ∨ parse bytes checks p = .error e := by
  refine .bind ((Blob.Reader.reset_follows h p).imp_error fun _ _ => .inl) fun ok =>
    .of_pre fun hok => ?_
  subst hok
  cases ha : accepts bytes with
  | true =>
    have hparse : parse bytes checks p = ((p.opened bytes).tensors bytes (counts checks)).map
        fun x => (findingsOf checks x.1, x.2) := by rw [parse, ha]; rfl
    refine (runEach_follows h (p.opened bytes) checks).imp (fun _ hr => hr) ?_
      fun e r => Or.imp id fun he => by rw [hparse, he]; rfl
    rintro fs r ⟨hs, ts, hts, rfl⟩
    exact ⟨hs, by rw [hparse, hts]; rfl⟩
  | false =>
    refine .get fun r ⟨_, hr⟩ => .fail fun _ _ => .inr ?_
    rw [parse, ha, ← hr]
    rfl

end Follows

/-! ### Reports -/

/-- The parser that a verification starts with. -/
def start (cfg : Config) : Parser := .create () cfg.decoder cfg.scratch

/-- The report on some bytes. -/
def parseReport (bytes : Bytes) (cfg : Config) (flash : Option FlashUse) : Except Fault Report :=
  (parse bytes cfg.checks (start cfg)).map fun x => reportOf x.2 flash x.1

/-- **In memory, a verification is a function of the bytes.** -/
theorem run_memory (blob : Bytes) (cfg : Config) :
    (run blob { cfg with backing := .memory }).1 = parseReport blob cfg none := by
  have hrun := runChecks_follows (MemorySource.shows blob) (start cfg) cfg.checks
    (memoryReader blob cfg) ⟨rfl, rfl⟩
  change ((runChecks cfg.checks).run (memoryReader blob cfg)).result.map
    (reportOf ((runChecks cfg.checks).run (memoryReader blob cfg)).state none) = _
  revert hrun
  rcases (runChecks cfg.checks).run (memoryReader blob cfg) with ⟨e | fs, r, es⟩
  · rintro (⟨⟨⟩⟩ | he)
    rw [parseReport, he]
    rfl
  · rintro ⟨-, hfs⟩
    rw [parseReport, hfs]
    rfl

/-! ### Other bytes -/

variable {a b : Bytes} {k : Nat} {checks : List Check} {p : Parser} {q : Parser}
  {fs : List Finding}

theorem parse_eq_ok (h : parse a checks p = .ok (fs, q)) : accepts a = true ∧
    ∃ ts, (p.opened a).tensors a (counts checks) = .ok (ts, q) ∧ fs = findingsOf checks ts := by
  unfold parse at h
  cases ha : accepts a with
  | false =>
    rw [ha] at h
    exact nomatch h
  | true =>
    rw [ha] at h
    cases ht : (p.opened a).tensors a (counts checks) with
    | error e => simp [ht, Except.map] at h
    | ok y =>
      simp only [ht, if_true, Except.map, Except.ok.injEq, Prod.mk.injEq] at h
      obtain ⟨rfl, rfl⟩ := h
      exact ⟨rfl, y.1, rfl, rfl⟩

/-- **What is consumed lies inside the bytes.** -/
theorem complete_of_parse (h : parse a checks p = .ok (fs, q)) :
    Complete a (consumed a checks) := by
  obtain ⟨ha, ts, hts, -⟩ := parse_eq_ok h
  exact ⟨(of_decide_eq_true ha).1, Parser.stop_le_of_tensors hts⟩

/-- The header says the same in bytes that agree on the magic and are long enough. -/
theorem opened_congr (hab : Agree k a b) (hk : 4 ≤ k) (ha : Blob.headerBytes ≤ a.size)
    (hb : Blob.headerBytes ≤ b.size) : accepts a = accepts b ∧ p.opened a = p.opened b := by
  have hword : Blob.wordAt a 0 = Blob.wordAt b 0 := hab.wordAt hk
  have haccepts : accepts a = accepts b := by
    unfold accepts
    simp only [ha, hb, hword]
  refine ⟨haccepts, ?_⟩
  unfold Parser.opened
  rw [haccepts, hword, if_neg (Nat.not_lt_of_le ha), if_neg (Nat.not_lt_of_le hb)]

/-- **Bytes with the same header and consumed records are verified alike.** -/
theorem parse_congr (hab : Agree k a b) (hk : k ≤ b.size) (h : parse a checks p = .ok (fs, q))
    (hheader : Blob.headerBytes ≤ k) (hstop : ∀ record ∈ consumed a checks, record.stop ≤ k) :
    parse b checks p = .ok (fs, q) ∧ consumed b checks = consumed a checks := by
  obtain ⟨ha, ts, hts, rfl⟩ := parse_eq_ok h
  obtain ⟨hsame, hopened⟩ := opened_congr (p := p) hab (Nat.le_trans (by decide) hheader)
    (of_decide_eq_true ha).1 (Nat.le_trans hheader hk)
  obtain ⟨htb, hrecords⟩ := Parser.tensors_congr hab hk hts hstop
  refine ⟨?_, hrecords⟩
  rw [parse, ← hsame, ha, ← hopened, htb]
  rfl

/-- **Where bytes are cut off, a magic or a record that needs more of them is refused.**  Up to `k`
the bytes are those of `a`; a magic or the first bytes of a record that are not all in front of `k`
are not there. -/
theorem parse_cut (hab : Agree k a b) (hmagic : accepts b = true → 4 ≤ k)
    (hcut : ∀ position, k < position + Blob.recordBytes →
      b.size < (Blob.recordAt b position).stop)
    (h : parse a checks p = .ok (fs, q)) :
    (accepts b = true ∧
      (∀ record ∈ consumed a checks, record.start ≤ k ∧ record.stop ≤ b.size) ∧
      ∃ gs, parse b checks p = .ok (gs, q)) ∨
    (accepts b = false ∨ ∃ record ∈ consumed a checks, k < record.start ∨ b.size < record.stop) ∧
      ∃ e, parse b checks p = .error e ∧ e.kind = .format := by
  obtain ⟨ha, ts, hts, -⟩ := parse_eq_ok h
  cases hb : accepts b with
  | false =>
    refine .inr ⟨.inl rfl, ?_⟩
    rw [parse, hb]
    exact ⟨_, rfl, rfl⟩
  | true =>
    obtain ⟨-, hopened⟩ := opened_congr (p := p) hab (hmagic hb) (of_decide_eq_true ha).1
      (of_decide_eq_true hb).1
    rcases Parser.tensors_cut hab hcut hts with ⟨hall, us, hus⟩ | ⟨hneeds, e, he, hk⟩
    · rw [hopened] at hus
      exact .inl ⟨rfl, hall, _, by rw [parse, hb, hus]; rfl⟩
    · rw [hopened] at he
      exact .inr ⟨.inr hneeds, e, by rw [parse, hb, he]; rfl, hk⟩

end Verify
end WeightLink
