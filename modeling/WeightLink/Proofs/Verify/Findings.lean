/-
# What the checks find

The checks of a verification take their tensors one after the other (`shares`), so what they find
is determined by the tensors that a reader gives for all their counts in a row
(`Reader.Reads`, `runChecks_eq_ok_iff`).  A check holds if the sum of the elements that it asks for
is the expected hash modulo `2 ^ 32` (`Check.Holds`), and its finding says so (`Finding.Reports`).

What is expected of a check goes into its own finding and nowhere else (`run_expecting`).

On a machine all of this takes a scratch buffer, so a report needs the memory for one
(`runWithin_eq_ok_iff`).
-/

import Mathlib.Algebra.Ring.Int.Defs
import Mathlib.Algebra.Ring.Nat
import Mathlib.Data.List.Forall2
import WeightLink.Proofs.Verify.Faults

namespace WeightLink

open WeightLink.Action (Triple)

/-! ### Hashes are sums -/

namespace Blob

theorem toNat_signed (v : Int8) : (v.toInt32.toUInt32.toNat : Int) = v.toInt % 2 ^ 32 := by
  rw [← Int8.toInt_toInt32]
  generalize v.toInt32 = w
  have hw : w.toInt = if 2 * w.toUInt32.toNat < 2 ^ 32 then (w.toUInt32.toNat : Int)
      else (w.toUInt32.toNat : Int) - (2 ^ 32 : Nat) := BitVec.toInt_eq_toNat_cond w.toBitVec
  have hlt := w.toUInt32.toNat_lt
  split at hw <;> omega

/-- **A hash is the sum of the weights modulo `2 ^ 32`.** -/
theorem toNat_hash (values : Array Int8) : ((hash values).toNat : Int) = sum values % 2 ^ 32 := by
  have hstep (l : List Int8) (word : UInt32) (total : Int)
      (h : (word.toNat : Int) = total % 2 ^ 32) :
      ((l.foldl (fun s v => s + v.toInt32.toUInt32) word).toNat : Int) =
        l.foldl (fun s v => s + v.toInt) total % 2 ^ 32 := by
    induction l generalizing word total with
    | nil => exact h
    | cons v l ih =>
      refine ih _ _ ?_
      have hv := toNat_signed v
      have hadd := UInt32.toNat_add word v.toInt32.toUInt32
      dsimp only
      omega
  unfold hash sum
  rw [← Array.foldl_toList, ← Array.foldl_toList]
  exact hstep values.toList 0 0 rfl

/-- A tensor has the elements that are asked for. -/
structure Tensor.Answers (t : Tensor) (requested : UInt32) : Prop where
  count_eq : t.count = requested
  le_size : requested.toNat ≤ t.values.size

end Blob

namespace Blob.Reader

variable {σ : Type} [Source σ]

/-- A reader accepts the magic, and then gives tensors for some counts in a row. -/
structure Reads (r : Reader σ) (counts : List UInt32) (ts : List Tensor) : Prop where
  magic : (reset.run r).result = .ok true
  tensors : ((counts.mapM tensor).run (reset.run r).state).result = .ok ts

theorem size_blocks (d : Decoder) (start n : Nat) :
    Triple (fun _ => True) (blocks d start n : Action σ (Array Int8))
      (fun values _ => values.size = n * blockElements) fun _ _ => True := by
  induction n with
  | zero => exact .pure fun _ _ => by simp
  | succ n ih =>
    refine .bind ih fun front => .bind .fact fun block => .pure fun _ h => ?_
    rw [Array.size_append, h, Vector.size_toArray, Nat.add_one_mul]
    rfl

/-- The blocks of a record that was checked have the elements that were asked for. -/
theorem tensor_answers (requested : UInt32) :
    Triple (fun _ => True) (tensor requested : Action (Reader σ) Tensor)
      (fun t _ => t.Answers requested) fun _ _ => True := by
  refine .get fun r _ => .bind .fact fun record =>
    .bind ((Triple.check _).imp_error fun _ _ _ => trivial) fun _ => .of_pre fun hcheck => ?_
  obtain ⟨-, hrequested, -⟩ := Record.check_eq_ok_iff.1 hcheck
  have hblocks : Triple (fun _ => True)
      (onSource (blocks r.decoder record.start record.blocks.toNat) : Action (Reader σ) _)
      (fun values _ => values.size = record.capacity) fun _ _ => True :=
    ((size_blocks _ _ _).within Reader.source _ (fun _ => True) (fun _ _ => rfl)
      fun _ _ h => h).imp (fun _ h => ⟨trivial, h⟩) (fun _ _ h => h.1) fun _ _ _ => trivial
  have hrest (f : Reader σ → Reader σ) : Triple (fun _ => True)
      (do
        let values ← onSource (blocks r.decoder record.start record.blocks.toNat)
        Action.modify f
        return (⟨values, requested, record.blocks⟩ : Tensor))
      (fun t _ => t.Answers requested) fun _ _ => True :=
    .bind hblocks fun values => .bind .fact fun _ => .pure fun _ hsize =>
      ⟨rfl, Nat.le_trans hrequested (Nat.le_of_eq hsize.symm)⟩
  -- A record of another count is reported, and then the same blocks are read.
  split
  · exact .bind .fact fun _ => .bind .fact fun _ => hrest _
  · exact hrest _

/-- So has every tensor of a reader. -/
theorem mapM_tensor_answers (counts : List UInt32) :
    Triple (fun _ => True) (counts.mapM tensor : Action (Reader σ) (List Tensor))
      (fun ts _ => List.Forall₂ Tensor.Answers ts counts) fun _ _ => True := by
  induction counts with
  | nil => exact .pure fun _ _ => .nil
  | cons n counts ih =>
    rw [List.mapM_cons]
    refine .bind (tensor_answers n) fun t => ?_
    have hrest : Triple (fun _ => t.Answers n) (counts.mapM tensor : Action (Reader σ) _)
        (fun ts _ => t.Answers n ∧ List.Forall₂ Tensor.Answers ts counts) fun _ _ => True :=
      .of_state fun r ht => ih.imp (fun _ _ => trivial) (fun _ _ hts => ⟨ht, hts⟩) fun _ _ h => h
    exact .bind hrest fun ts => .pure fun _ ⟨ht, hts⟩ => .cons ht hts

theorem Reads.answers {r : Reader σ} {counts : List UInt32} {ts : List Tensor}
    (h : r.Reads counts ts) : List.Forall₂ Tensor.Answers ts counts :=
  (mapM_tensor_answers counts).result_ok trivial h.tensors

end Blob.Reader

namespace Verify

open Blob (Reader Tensor)

/-! ### What a check finds -/

/-- The sum of the elements that are asked for, the first ones of each tensor. -/
def elementSum (counts : List UInt32) (ts : List Tensor) : Int :=
  (List.zipWith (fun n t => Blob.sum (t.values.take n.toNat)) counts ts).sum

/-- A check holds for its tensors if nothing is expected of it, or the sum of their elements. -/
def Check.Holds (check : Check) (ts : List Tensor) : Prop :=
  ∀ hash, check.expected = some hash → (hash.toNat : Int) = elementSum check.tensors ts % 2 ^ 32

/-- What a finding says about a check and its tensors. -/
structure Finding.Reports (f : Finding) (check : Check) (ts : List Tensor) : Prop where
  name_eq : f.name = check.name
  expected_eq : f.expected = check.expected
  elements_eq : f.elements = (check.tensors.map UInt32.toNat).sum
  hash_eq : (f.hash.toNat : Int) = elementSum check.tensors ts % 2 ^ 32
  agrees_iff : f.agrees = true ↔ check.Holds ts
  /-- There is a tensor for every count, with so many elements or more. -/
  answers : List.Forall₂ Tensor.Answers ts check.tensors

theorem toNat_hashSum {counts : List UInt32} {ts : List Tensor}
    (h : List.Forall₂ Tensor.Answers ts counts) :
    ((hashSum ts).toNat : Int) = elementSum counts ts % 2 ^ 32 := by
  induction h with
  | nil => rfl
  | @cons t n ts counts ht _ ih =>
    have hsum : elementSum (n :: counts) (t :: ts) =
        Blob.sum (t.values.take n.toNat) + elementSum counts ts := by
      simp [elementSum]
    have hhash : (t.hash.toNat : Int) = Blob.sum (t.values.take n.toNat) % 2 ^ 32 := by
      rw [Tensor.hash, Blob.toNat_hash, Tensor.elements, ht.count_eq]
    have hadd : (hashSum (t :: ts)).toNat = (t.hash.toNat + (hashSum ts).toNat) % 2 ^ 32 :=
      UInt32.toNat_add _ _
    omega

theorem reports_findingOf {check : Check} {ts : List Tensor}
    (h : List.Forall₂ Tensor.Answers ts check.tensors) :
    (findingOf check ts).Reports check ts where
  name_eq := rfl
  expected_eq := rfl
  elements_eq := by
    rw [List.sum_eq_foldr, List.foldr_map]
    rfl
  hash_eq := toNat_hashSum h
  agrees_iff := by
    have hhash := toNat_hashSum h
    simp only [Finding.agrees, findingOf, Check.Holds, Option.all_eq_true, beq_iff_eq]
    refine forall_congr' fun hash => imp_congr_right fun _ => ?_
    rw [← hhash, ← UInt32.toNat_inj]
    omega
  answers := h

/-! ### One check after the other -/

/-- Each check with its tensors: the checks take them one after the other. -/
def shares : List Check → List Tensor → List (Check × List Tensor)
  | [], _ => []
  | check :: checks, ts =>
    let n := check.tensors.length
    (check, ts.take n) :: shares checks (ts.drop n)

theorem map_fst_shares (checks : List Check) (ts : List Tensor) :
    (shares checks ts).map Prod.fst = checks := by
  induction checks generalizing ts with
  | nil => rfl
  | cons check checks ih => exact congrArg (check :: ·) (ih _)

theorem findingsOf_eq_map (checks : List Check) (ts : List Tensor) :
    findingsOf checks ts = (shares checks ts).map fun p => findingOf p.1 p.2 := by
  induction checks generalizing ts with
  | nil => rfl
  | cons check checks ih => exact congrArg _ (ih _)

theorem answers_of_shares {checks : List Check} {ts : List Tensor}
    (h : List.Forall₂ Tensor.Answers ts (counts checks)) :
    ∀ p ∈ shares checks ts, List.Forall₂ Tensor.Answers p.2 p.1.tensors := by
  induction checks generalizing ts with
  | nil => exact fun p hp => nomatch hp
  | cons check checks ih =>
    have hcounts : counts (check :: checks) = check.tensors ++ counts checks := rfl
    rw [hcounts] at h
    intro p hp
    rcases List.mem_cons.1 hp with rfl | hp
    · exact List.forall₂_take_append ts _ _ h
    · exact ih (List.forall₂_drop_append ts _ _ h) p hp

/-- The findings report on the checks in order. -/
theorem reports_findingsOf {checks : List Check} {ts : List Tensor}
    (h : List.Forall₂ Tensor.Answers ts (counts checks)) :
    List.Forall₂ (fun f p => f.Reports p.1 p.2) (findingsOf checks ts) (shares checks ts) := by
  rw [findingsOf_eq_map, List.forall₂_map_left_iff, List.forall₂_same]
  exact fun p hp => reports_findingOf (answers_of_shares h p hp)

/-- All findings agree if all checks hold. -/
theorem agrees_findingsOf {checks : List Check} {ts : List Tensor}
    (h : List.Forall₂ Tensor.Answers ts (counts checks)) :
    (findingsOf checks ts).all Finding.agrees = true ↔
      ∀ p ∈ shares checks ts, p.1.Holds p.2 := by
  rw [findingsOf_eq_map, List.all_map, List.all_eq_true]
  exact forall₂_congr fun p hp => (reports_findingOf (answers_of_shares h p hp)).agrees_iff

/-- A check with another expected hash. -/
def Check.expecting (expected : Option UInt32) (check : Check) : Check := { check with expected }

/-- A finding with another expected hash. -/
def Finding.expecting (expected : Option UInt32) (f : Finding) : Finding := { f with expected }

theorem counts_expecting (checks : List Check) (k : Nat) (expected : Option UInt32) :
    counts (checks.modify k (Check.expecting expected)) = counts checks := by
  induction checks generalizing k with
  | nil => simp
  | cons check checks ih =>
    cases k with
    | zero => rfl
    | succ k => exact congrArg (check.tensors ++ ·) (ih k)

theorem findingsOf_expecting (checks : List Check) (ts : List Tensor) (k : Nat)
    (expected : Option UInt32) :
    findingsOf (checks.modify k (Check.expecting expected)) ts =
      (findingsOf checks ts).modify k (Finding.expecting expected) := by
  induction checks generalizing k ts with
  | nil => simp [findingsOf]
  | cons check checks ih =>
    cases k with
    | zero => rfl
    | succ k => exact congrArg (_ :: ·) (ih _ k)

/-! ### The checks over a reader -/

section Reader

/-- What follows some steps may rely on their number. -/
theorem mapM_bind_congr {m : Type → Type} [Monad m] [LawfulMonad m] {α β γ : Type} (f : α → m β)
    (l : List α) {k k' : List β → m γ} (h : ∀ bs, bs.length = l.length → k bs = k' bs) :
    l.mapM f >>= k = l.mapM f >>= k' := by
  induction l generalizing k k' with
  | nil => simpa using h [] rfl
  | cons a l ih =>
    simp only [List.mapM_cons, bind_assoc, pure_bind]
    exact congrArg (f a >>= ·) (funext fun b => ih fun bs hbs => h (b :: bs) (by simp [hbs]))

variable {σ : Type} [Source σ]

theorem sumTensors_eq (ns : List UInt32) : (sumTensors ns : Action (Reader σ) (UInt32 × Nat)) =
    (fun ts => (hashSum ts, countSum ns)) <$> ns.mapM Reader.tensor := by
  induction ns with
  | nil => simp [sumTensors, hashSum, countSum]
  | cons n ns ih =>
    rw [sumTensors, ih]
    simp [List.mapM_cons, hashSum, countSum]

theorem runCheck_eq (check : Check) : (runCheck check : Action (Reader σ) Finding) =
    findingOf check <$> check.tensors.mapM Reader.tensor := by
  rw [runCheck, sumTensors_eq]
  simp only [map_eq_pure_bind, bind_assoc, pure_bind]
  rfl

/-- The checks find what there is in the tensors for all their counts. -/
theorem runEach_eq (checks : List Check) : (runEach checks : Action (Reader σ) (List Finding)) =
    findingsOf checks <$> (counts checks).mapM Reader.tensor := by
  induction checks with
  | nil => simp [runEach, counts, findingsOf]
  | cons check checks ih =>
    have hcounts : counts (check :: checks) = check.tensors ++ counts checks := rfl
    rw [runEach, ih, runCheck_eq, hcounts, List.mapM_append]
    simp only [map_eq_pure_bind, bind_assoc, pure_bind]
    -- The tensors of the first check are told from those of the others by their number.
    refine mapM_bind_congr _ _ fun ts hts => ?_
    simp only [findingsOf_cons hts]

/-- **The checks find what there is in the tensors that a reader gives**, and nothing if it gives
none. -/
theorem runChecks_eq_ok_iff {checks : List Check} {r : Reader σ} {fs : List Finding} :
    ((runChecks checks).run r).result = .ok fs ↔
      ∃ ts, r.Reads (counts checks) ts ∧ fs = findingsOf checks ts := by
  rw [runChecks, Action.run_bind]
  cases hreset : (Reader.reset.run r).result with
  | error e =>
    refine ⟨fun h => (nomatch h), fun ⟨ts, h, _⟩ => ?_⟩
    exact nomatch hreset.symm.trans h.magic
  | ok accepted =>
    cases accepted with
    | false =>
      refine ⟨fun h => (nomatch h), fun ⟨ts, h, _⟩ => ?_⟩
      exact nomatch hreset.symm.trans h.magic
    | true =>
      simp only [if_true, runEach_eq, Action.run_map]
      cases htensors : (((counts checks).mapM Reader.tensor).run (Reader.reset.run r).state).result
        with
      | error e =>
        refine ⟨fun h => (nomatch h), fun ⟨ts, h, _⟩ => ?_⟩
        exact nomatch htensors.symm.trans h.tensors
      | ok ts =>
        refine ⟨fun h => ⟨ts, ⟨hreset, htensors⟩, (Except.ok.inj h).symm⟩, fun ⟨us, h, hfs⟩ => ?_⟩
        obtain rfl := Except.ok.inj (htensors.symm.trans h.tensors)
        exact congrArg Except.ok hfs.symm

/-- What is expected of a check goes into its own finding. -/
theorem runChecks_expecting (checks : List Check) (k : Nat) (expected : Option UInt32) :
    (runChecks (checks.modify k (Check.expecting expected)) : Action (Reader σ) (List Finding)) =
      (fun fs => fs.modify k (Finding.expecting expected)) <$> runChecks checks := by
  have hfindings : findingsOf (checks.modify k (Check.expecting expected)) = fun ts =>
      (findingsOf checks ts).modify k (Finding.expecting expected) :=
    funext fun ts => findingsOf_expecting checks ts k expected
  rw [runChecks, runChecks, runEach_eq, runEach_eq, counts_expecting, hfindings, map_bind]
  refine congrArg (Reader.reset >>= ·) (funext fun accepted => ?_)
  cases accepted with
  | false => exact Action.ext fun r => rfl
  | true => simp only [if_true, Functor.map_map]

end Reader

/-! ### Reports -/

variable {blob : Bytes} {cfg : Config} {report : Report} {ts : List Tensor}

/-- Through its backing and decoder, a verification accepts the magic of a blob and reads the
tensors for all its checks. -/
def Config.Reads (cfg : Config) (blob : Bytes) (ts : List Tensor) : Prop :=
  match cfg.backing with
  | .memory => (memoryReader blob cfg).Reads (counts cfg.checks) ts
  | .flash => ∀ reader, flashReader blob cfg = .ok reader → reader.Reads (counts cfg.checks) ts

theorem exists_flashReader (h : cfg.Fits blob) : ∃ reader, flashReader blob cfg = .ok reader := by
  obtain ⟨reader, -, hreader, -⟩ := flashReader_follows h
  exact ⟨reader, hreader⟩

theorem Config.Reads.answers (h : cfg.Reads blob ts)
    (hfits : cfg.backing = .flash → cfg.Fits blob) :
    List.Forall₂ Tensor.Answers ts (counts cfg.checks) := by
  unfold Config.Reads at h
  cases hb : cfg.backing with
  | memory =>
    rw [hb] at h
    exact Reader.Reads.answers h
  | flash =>
    rw [hb] at h
    obtain ⟨reader, hreader⟩ := exists_flashReader (hfits hb)
    exact (h reader hreader).answers

theorem findings_reportOf {σ : Type} (r : Reader σ) (flash : Option FlashUse)
    (found : Except Fault (List Finding)) :
    (found.map (reportOf r flash)).map Report.findings = found := by
  cases found <;> rfl

/-- **The findings of a report are those in the tensors that are read**, and there is a report
whenever they are. -/
theorem findings_run_iff {fs : List Finding} (hfits : cfg.backing = .flash → cfg.Fits blob) :
    (run blob cfg).1.map Report.findings = .ok fs ↔
      ∃ ts, cfg.Reads blob ts ∧ fs = findingsOf cfg.checks ts := by
  unfold Config.Reads
  cases hb : cfg.backing with
  | memory =>
    have hrun : (run blob cfg).1.map Report.findings =
        ((runChecks cfg.checks).run (memoryReader blob cfg)).result := by
      simp only [run, hb, findings_reportOf]
    rw [hrun]
    exact runChecks_eq_ok_iff
  | flash =>
    obtain ⟨reader, hreader⟩ := exists_flashReader (hfits hb)
    have hrun : (run blob cfg).1.map Report.findings =
        ((runChecks cfg.checks).run reader).result := by
      simp only [run, hb, hreader, findings_reportOf]
    rw [hrun, runChecks_eq_ok_iff]
    refine exists_congr fun ts => and_congr_left fun _ =>
      ⟨fun h reader' hreader' => ?_, fun h => h reader hreader⟩
    exact Except.ok.inj (hreader.symm.trans hreader') ▸ h

theorem fits_of_run (h : (run blob cfg).1 = .ok report) (hb : cfg.backing = .flash) :
    cfg.Fits blob := by
  have hsame : cfg = { cfg with backing := .flash } := by rw [← hb]
  rw [hsame] at h
  exact fits_of_report h

theorem reads_of_run (h : (run blob cfg).1 = .ok report) :
    ∃ ts, cfg.Reads blob ts ∧ report.findings = findingsOf cfg.checks ts :=
  (findings_run_iff (fits_of_run h)).1 (congrArg (Except.map Report.findings) h)

theorem run_of_reads (hfits : cfg.backing = .flash → cfg.Fits blob) (h : cfg.Reads blob ts) :
    ∃ report, (run blob cfg).1 = .ok report ∧ report.findings = findingsOf cfg.checks ts := by
  have hfindings := (findings_run_iff hfits).2 ⟨ts, h, rfl⟩
  cases hrun : (run blob cfg).1 with
  | error e =>
    rw [hrun] at hfindings
    exact nomatch hfindings
  | ok report =>
    rw [hrun] at hfindings
    exact ⟨report, rfl, Except.ok.inj hfindings⟩

/-- Whatever is expected of a check, the findings of the others stay as they are. -/
theorem run_expecting (blob : Bytes) (cfg : Config) (k : Nat) (expected : Option UInt32) :
    (run blob { cfg with checks := cfg.checks.modify k (Check.expecting expected) }).1 =
      (run blob cfg).1.map fun report =>
        { report with findings := report.findings.modify k (Finding.expecting expected) } := by
  have hmap {σ : Type} (r : Reader σ) (flash : Option FlashUse)
      (found : Except Fault (List Finding)) :
      (found.map fun fs => fs.modify k (Finding.expecting expected)).map (reportOf r flash) =
        (found.map (reportOf r flash)).map fun report =>
          { report with findings := report.findings.modify k (Finding.expecting expected) } := by
    cases found <;> rfl
  have hreader : flashReader blob
      { cfg with checks := cfg.checks.modify k (Check.expecting expected) } =
        flashReader blob cfg := rfl
  unfold run
  dsimp only
  rw [hreader]
  cases cfg.backing with
  | memory =>
    dsimp only
    rw [runChecks_expecting, Action.run_map, hmap]
    rfl
  | flash =>
    cases flashReader blob cfg with
    | error e => rfl
    | ok reader =>
      dsimp only
      rw [runChecks_expecting, Action.run_map, hmap]

/-! ### Memory for the scratch buffer -/

section Memory

variable {grants : Nat → Bool}

theorem allocate_eq_ok_iff {elements : Nat} :
    allocate grants elements = .ok () ↔ elements < 2 ^ 63 ∧ grants elements = true := by
  have hmax : maxBuffer < elements ↔ ¬elements < 2 ^ 63 := by
    rw [Nat.not_lt]
    rfl
  unfold allocate
  by_cases hlength : elements < 2 ^ 63
  · rw [if_neg (mt hmax.1 (not_not_intro hlength)), and_iff_right hlength]
    cases grants elements <;> simp
  · rw [if_pos (hmax.2 hlength)]
    exact iff_of_false nofun fun h => hlength h.1

/-- Where the blob fits, only the memory is in the way. -/
theorem prepare_of_fits (hfits : cfg.backing = .flash → cfg.Fits blob) :
    prepare grants blob cfg = allocate grants cfg.scratch := by
  unfold prepare
  cases hb : cfg.backing with
  | memory => rfl
  | flash =>
    obtain ⟨reader, hreader⟩ := exists_flashReader (hfits hb)
    dsimp only
    rw [hreader]
    rfl

/-- **A report takes the memory for the scratch buffer**, and nothing else that `run` does not
take. -/
theorem runWithin_eq_ok_iff : (runWithin grants blob cfg).1 = .ok report ↔
    (cfg.scratch < 2 ^ 63 ∧ grants cfg.scratch = true) ∧ (run blob cfg).1 = .ok report := by
  unfold runWithin
  constructor
  · intro h
    cases hprepare : prepare grants blob cfg with
    | error e =>
      rw [hprepare] at h
      exact nomatch h
    | ok =>
      rw [hprepare] at h
      rw [prepare_of_fits (fits_of_run h)] at hprepare
      exact ⟨allocate_eq_ok_iff.1 hprepare, h⟩
  · rintro ⟨hroom, hrun⟩
    rw [prepare_of_fits (fits_of_run hrun), allocate_eq_ok_iff.2 hroom]
    exact hrun

/-- The same for the memory: it is not asked for because of what is expected. -/
theorem runWithin_expecting (blob : Bytes) (cfg : Config) (k : Nat) (expected : Option UInt32) :
    (runWithin grants blob
        { cfg with checks := cfg.checks.modify k (Check.expecting expected) }).1 =
      (runWithin grants blob cfg).1.map fun report =>
        { report with findings := report.findings.modify k (Finding.expecting expected) } := by
  have hprepare : prepare grants blob
      { cfg with checks := cfg.checks.modify k (Check.expecting expected) } =
        prepare grants blob cfg := rfl
  unfold runWithin
  rw [hprepare]
  cases prepare grants blob cfg with
  | error e => rfl
  | ok => exact run_expecting blob cfg k expected

end Memory

end Verify
end WeightLink
