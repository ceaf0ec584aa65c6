/-
# The rows of a report

A row is five fields with commas between them: the name of a check, how many elements it had, its
hash, the hash that was expected, if any, and whether they agree (`Finding.Says`).  The name is
written as it is, so it matters what is in it.

A comma in a name makes more fields.  It does no harm to a reader who counts the fields from the
end: fields are those of at most one finding (`Finding.InFields.unique`).

A newline in a name makes more lines, and rows that stand one behind the other need not be told
apart any more.  They are as long as no name begins with a whole row (`eq_of_written`).  All other
findings have the same rows as some of these (`exists_unambiguous`), so with them rows would not be
told apart.
-/

import WeightLink.Proofs.Verify.Findings

namespace WeightLink

/-! ### Splitting a text -/

section Split

variable {α : Type} [BEq α] {a : α}

theorem length_splitOn (xs : List α) : (xs.splitOn a).length = xs.count a + 1 := by
  induction xs with
  | nil => rfl
  | cons x xs ih =>
    rw [List.splitOn_cons_eq_if_modifyHead, List.count_cons]
    by_cases hx : (x == a) = true <;> simp [hx, ih]

variable [LawfulBEq α]

/-- Pieces with a separator behind each of them are split one by one. -/
theorem splitOn_flatMap_append (pieces : List (List α)) (rest : List α) :
    (pieces.flatMap (· ++ [a]) ++ rest).splitOn a =
      pieces.flatMap (List.splitOn a) ++ rest.splitOn a := by
  induction pieces with
  | nil => rfl
  | cons piece pieces ih =>
    rw [List.flatMap_cons, List.flatMap_cons, List.append_assoc, List.append_assoc,
      List.append_assoc, List.singleton_append, List.splitOn_append_cons_self, ih]

/-- The parts of a text with a separator behind each of them are the text with one behind it. -/
theorem flatMap_splitOn_append (xs : List α) :
    (xs.splitOn a).flatMap (· ++ [a]) = xs ++ [a] := by
  induction xs with
  | nil => rfl
  | cons x xs ih =>
    rw [List.splitOn_cons_eq_if_modifyHead]
    obtain ⟨part, parts, hparts⟩ := List.exists_cons_of_ne_nil (List.splitOn_ne_nil a xs)
    rw [hparts] at ih ⊢
    by_cases hx : x = a <;> simp_all

/-- What pieces are split into is what they are made of. -/
theorem flatMap_splitOn (pieces : List (List α)) :
    (pieces.flatMap (List.splitOn a)).flatMap (· ++ [a]) = pieces.flatMap (· ++ [a]) := by
  simp only [List.flatMap_assoc, flatMap_splitOn_append]

end Split

namespace Verify

/-! ### What the fields of a row say -/

/-- The characters are a hash as it is shown to a reader: `0x` and eight hexadecimal digits. -/
def WritesHash (cs : List Char) (hash : UInt32) : Prop :=
  ∃ digits, cs = '0' :: 'x' :: digits ∧ digits.length = 8 ∧ Numeral.Writes 16 digits hash.toNat

theorem WritesHash.unique {cs : List Char} {hash hash' : UInt32} (h : WritesHash cs hash)
    (h' : WritesHash cs hash') : hash = hash' := by
  obtain ⟨digits, rfl, -, hwrites⟩ := h
  obtain ⟨digits', heq, -, hwrites'⟩ := h'
  obtain rfl : digits = digits' := by simpa using heq
  exact UInt32.toNat_inj.1 (hwrites.unique hwrites')

/-- What the last four fields of a row say about a finding. -/
structure Finding.Says (f : Finding) (elements hash expected agrees : List Char) : Prop where
  elements_ne_nil : elements ≠ []
  elements : Numeral.Writes 10 elements f.elements
  hash : WritesHash hash f.hash
  /-- Nothing is written exactly if nothing was expected. -/
  expected_eq_nil_iff : expected = [] ↔ f.expected = none
  expected : ∀ h, f.expected = some h → WritesHash expected h
  agrees : agrees = if f.agrees then ['1'] else ['0']

/-- The fields are those of a finding: the last four say what was found, and those in front are the
name, or its parts if there are commas in it. -/
def Finding.InFields (f : Finding) (fields : List (List Char)) : Prop :=
  ∃ elements hash expected agrees,
    fields = f.name.toList.splitOn ',' ++ [elements, hash, expected, agrees] ∧
    f.Says elements hash expected agrees

variable {f g : Finding}

theorem Finding.Says.unique {elements hash expected agrees : List Char}
    (hf : f.Says elements hash expected agrees) (hg : g.Says elements hash expected agrees)
    (hname : f.name = g.name) : f = g := by
  have hexpected : f.expected = g.expected := by
    cases hfe : f.expected with
    | none => exact (hg.expected_eq_nil_iff.1 (hf.expected_eq_nil_iff.2 hfe)).symm
    | some h =>
      cases hge : g.expected with
      | none =>
        have := hf.expected_eq_nil_iff.1 (hg.expected_eq_nil_iff.2 hge)
        exact nomatch hfe.symm.trans this
      | some h' => rw [(hf.expected h hfe).unique (hg.expected h' hge)]
  have helements := hf.elements.unique hg.elements
  have hhash := hf.hash.unique hg.hash
  cases f
  cases g
  simp only [Finding.mk.injEq]
  exact ⟨hname, hhash, hexpected, helements⟩

/-- **Fields are those of at most one finding.** -/
theorem Finding.InFields.unique {fields : List (List Char)} (hf : f.InFields fields)
    (hg : g.InFields fields) : f = g := by
  obtain ⟨elements, hash, expected, agrees, rfl, hsays⟩ := hf
  obtain ⟨elements', hash', expected', agrees', heq, hsays'⟩ := hg
  obtain ⟨hparts, hlast⟩ := List.append_inj' heq rfl
  obtain ⟨rfl, rfl, rfl, rfl⟩ : elements = elements' ∧ hash = hash' ∧ expected = expected' ∧
      agrees = agrees' := by simpa using hlast
  have hname := congrArg [','].intercalate hparts
  rw [List.intercalate_splitOn, List.intercalate_splitOn] at hname
  exact hsays.unique hsays' (String.toList_inj.1 hname)

/-! ### The row of a finding -/

/-- The last four fields of a row. -/
def Finding.cells (f : Finding) : List (List Char) :=
  [(toString f.elements).toList, (Word.hex f.hash).toList,
    ((f.expected.map Word.hex).getD "").toList, if f.agrees then ['1'] else ['0']]

/-- What is written behind a name. -/
def Finding.behind (f : Finding) : List Char := ',' :: [','].intercalate f.cells

/-- A row without the newline at its end. -/
def Finding.line (f : Finding) : List Char := f.name.toList ++ f.behind

theorem toList_row (f : Finding) : (Report.row f).toList = f.line ++ ['\n'] := by
  cases h : f.agrees <;> simp [Report.row, Finding.line, Finding.behind, Finding.cells, h]

theorem says_cells (f : Finding) :
    f.Says (toString f.elements).toList (Word.hex f.hash).toList
      ((f.expected.map Word.hex).getD "").toList (if f.agrees then ['1'] else ['0']) where
  elements_ne_nil := by
    rw [Nat.toString_eq_repr, Nat.toList_repr]
    exact Nat.toDigits_ne_nil
  elements := by
    rw [Nat.toString_eq_repr, Nat.toList_repr]
    exact Numeral.writes_toDigits _
  hash := Numeral.writes_hex _
  expected_eq_nil_iff := by
    cases f.expected with
    | none => simp
    | some h =>
      obtain ⟨digits, hdigits, -⟩ := Numeral.writes_hex h
      rw [Option.map_some, Option.getD_some, hdigits]
      exact iff_of_false (List.cons_ne_nil _ _) nofun
  expected h hexpected := by
    rw [hexpected]
    exact Numeral.writes_hex h
  agrees := rfl

/-- There is no separator in the last four fields. -/
theorem Finding.Says.not_mem {elements hash expected agrees : List Char}
    (h : f.Says elements hash expected agrees) {c : Char} (hc : c = ',' ∨ c = '\n') :
    ∀ cell ∈ [elements, hash, expected, agrees], c ∉ cell := by
  have hdecimal : Numeral.digit? 10 c = none := by rcases hc with rfl | rfl <;> decide
  have hhexadecimal : Numeral.digit? 16 c = none := by rcases hc with rfl | rfl <;> decide
  have hmark : c ≠ '0' ∧ c ≠ 'x' ∧ c ≠ '1' := by rcases hc with rfl | rfl <;> decide
  have hhash {cs : List Char} {w : UInt32} (hw : WritesHash cs w) : c ∉ cs := by
    obtain ⟨digits, rfl, -, hwrites⟩ := hw
    simp [hmark, hwrites.not_mem hhexadecimal]
  simp only [List.mem_cons, List.not_mem_nil, or_false]
  rintro cell (rfl | rfl | rfl | rfl)
  · exact h.elements.not_mem hdecimal
  · exact hhash h.hash
  · cases hexpected : f.expected with
    | none => simp [h.expected_eq_nil_iff.2 hexpected]
    | some w => exact hhash (h.expected w hexpected)
  · rw [h.agrees]
    split <;> simp [hmark]

theorem not_mem_cells {c : Char} (hc : c = ',' ∨ c = '\n') : ∀ cell ∈ f.cells, c ∉ cell :=
  (says_cells f).not_mem hc

/-- The name of a row is split, and the last four fields are not. -/
theorem splitOn_line (f : Finding) : f.line.splitOn ',' = f.name.toList.splitOn ',' ++ f.cells := by
  rw [Finding.line, Finding.behind, List.splitOn_append_cons_self,
    List.splitOn_intercalate _ (not_mem_cells (.inl rfl)) (List.cons_ne_nil _ _)]

theorem inFields_line (f : Finding) : f.InFields (f.line.splitOn ',') :=
  ⟨_, _, _, _, splitOn_line f, says_cells f⟩

theorem length_fields_eq_five_iff (f : Finding) :
    (f.line.splitOn ',').length = 5 ↔ ',' ∉ f.name.toList := by
  have hcells : f.cells.length = 4 := rfl
  rw [splitOn_line, List.length_append, length_splitOn, hcells, ← List.count_eq_zero]
  omega

theorem newline_not_mem_behind (f : Finding) : '\n' ∉ f.behind := by
  have h := not_mem_cells (f := f) (.inr rfl)
  simpa [Finding.behind, Finding.cells, List.intercalate] using h

theorem line_injective (h : f.line = g.line) : f = g :=
  (inFields_line f).unique (h ▸ inFields_line g)

/-! ### Rows that are told apart -/

/-- The rows of some findings, one behind the other. -/
def written (findings : List Finding) : List Char :=
  (findings.map Finding.line).flatMap (· ++ ['\n'])

theorem written_cons (f : Finding) (findings : List Finding) :
    written (f :: findings) = f.line ++ ['\n'] ++ written findings := rfl

theorem written_append (findings others : List Finding) :
    written (findings ++ others) = written findings ++ written others := by
  rw [written, List.map_append, List.flatMap_append]
  rfl

/-- A name begins with the whole row of a finding. -/
def StartsWithRow (name : String) : Prop := ∃ f : Finding, (Report.row f).toList <+: name.toList

/-- No name begins with a row. -/
def Unambiguous (findings : List Finding) : Prop := ∀ f ∈ findings, ¬StartsWithRow f.name

theorem newline_mem_of_startsWithRow {name : String} (h : StartsWithRow name) :
    '\n' ∈ name.toList := by
  obtain ⟨f, hf⟩ := h
  rw [toList_row] at hf
  exact hf.subset (List.mem_append_right _ (List.mem_singleton_self _))

/-- A row does not begin with that of another finding, unless its name does. -/
theorem eq_of_begins_with_row (hg : ¬StartsWithRow g.name)
    (h : f.line ++ ['\n'] <+: g.line ++ ['\n']) : f = g := by
  rcases List.prefix_concat_iff.1 h with heq | ⟨rest, hrest⟩
  · exact line_injective (List.append_cancel_right heq)
  · -- There is no newline behind the name of `g`, so the newline of `f` is in that name.
    refine absurd ⟨f, ?_⟩ hg
    rw [toList_row]
    rcases List.append_eq_append_iff.1 hrest with ⟨more, hname, -⟩ | ⟨past, hline, hbehind⟩
    · exact ⟨more, hname.symm⟩
    · rcases List.eq_nil_or_concat past with rfl | ⟨front, c, rfl⟩
      · exact (hline.trans (List.append_nil _)).symm ▸ List.prefix_refl _
      · rw [List.concat_eq_append, ← List.append_assoc] at hline
        obtain ⟨-, hc⟩ := List.append_inj' hline rfl
        obtain rfl : '\n' = c := by simpa using hc
        refine absurd ?_ (newline_not_mem_behind g)
        simp [hbehind]

/-- **Rows are told apart** if no name begins with one. -/
theorem eq_of_written {findings others : List Finding} (hfindings : Unambiguous findings)
    (hothers : Unambiguous others) (h : written findings = written others) :
    findings = others := by
  induction findings generalizing others with
  | nil =>
    cases others with
    | nil => rfl
    | cons g others => simp [written] at h
  | cons f findings ih =>
    cases others with
    | nil => simp [written] at h
    | cons g others =>
      obtain ⟨hf, hfs⟩ := List.forall_mem_cons.1 hfindings
      obtain ⟨hg, hgs⟩ := List.forall_mem_cons.1 hothers
      have hprefix : f.line ++ ['\n'] <+: written (g :: others) := ⟨written findings, h⟩
      have hprefix' : g.line ++ ['\n'] <+: written (g :: others) := ⟨written others, rfl⟩
      obtain rfl : f = g := by
        rcases List.prefix_or_prefix_of_prefix hprefix hprefix' with hp | hp
        · exact eq_of_begins_with_row hg hp
        · exact (eq_of_begins_with_row hf hp).symm
      rw [written_cons, written_cons] at h
      rw [ih hfs hgs (List.append_cancel_left h)]

/-- A row is the rows of some findings whose names do not begin with one: a name that does is cut
behind that row. -/
theorem exists_unambiguous_row (f : Finding) :
    ∃ findings, Unambiguous findings ∧ written findings = f.line ++ ['\n'] := by
  induction hn : f.name.toList.length using Nat.strongRecOn generalizing f with
  | _ n ih =>
    by_cases h : StartsWithRow f.name
    · -- The name of that row and the rest of this name are both shorter than this name.
      obtain ⟨first, rest, hrest⟩ := h
      rw [toList_row, Finding.line] at hrest
      have hlength := congrArg List.length hrest
      simp only [List.length_append, List.length_singleton, hn] at hlength
      obtain ⟨front, hfront, hwfront⟩ := ih first.name.toList.length (by omega) first rfl
      obtain ⟨back, hback, hwback⟩ := ih rest.length (by omega)
        { f with name := String.ofList rest } (by rw [String.toList_ofList])
      refine ⟨front ++ back, List.forall_mem_append.2 ⟨hfront, hback⟩, ?_⟩
      have hline : Finding.line { f with name := String.ofList rest } = rest ++ f.behind := by
        rw [Finding.line, String.toList_ofList]
        rfl
      calc written (front ++ back)
          = first.name.toList ++ first.behind ++ ['\n'] ++ (rest ++ f.behind ++ ['\n']) := by
            rw [written_append, hwfront, hwback, hline, Finding.line]
        _ = first.name.toList ++ first.behind ++ ['\n'] ++ rest ++ (f.behind ++ ['\n']) := by
            simp only [List.append_assoc]
        _ = f.line ++ ['\n'] := by rw [hrest, Finding.line, List.append_assoc]
    · exact ⟨[f], by simpa [Unambiguous] using h, List.append_nil _⟩

/-- **For all findings there are some with the same rows whose names do not begin with one.** -/
theorem exists_unambiguous (findings : List Finding) :
    ∃ others, Unambiguous others ∧ written others = written findings := by
  induction findings with
  | nil => exact ⟨[], nofun, rfl⟩
  | cons f findings ih =>
    obtain ⟨front, hfront, hwfront⟩ := exists_unambiguous_row f
    obtain ⟨back, hback, hwback⟩ := ih
    refine ⟨front ++ back, List.forall_mem_append.2 ⟨hfront, hback⟩, ?_⟩
    rw [written_append, hwfront, hwback, written_cons]

end Verify
end WeightLink
