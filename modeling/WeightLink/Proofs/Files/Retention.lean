/-
# What was written can be read

A storage retains what is written if a path stands for the bytes that were put there last
(`Storage.Retains`).  A directory does (`Directory.retains`): a new file takes no directory away, so
a path that leads somewhere leads there still (`Directory.locate_of_ok`).

With such a storage the table of a report is in its file when the program says so
(`CommandLine.shows_table`).
-/

import WeightLink.Files.Directory
import WeightLink.Proofs.Verify.Verdict

namespace WeightLink

/-- What is written at a path is what the path then stands for. -/
def Storage.Retains {Files : Type} (s : Storage (StateM Files)) : Prop :=
  ∀ path bytes files, ((s.write path bytes).run files).1 = true →
    s.Shows path ((s.write path bytes).run files).2 bytes

namespace Directory

variable {d d' : Directory} {path : String} {place next : List String}

theorem demand_eq_ok_iff : d.demand place = .ok () ↔ d.isDirectory place = true := by
  unfold demand
  by_cases h : d.isDirectory place = true
  · simp [h]
  · by_cases hfile : (d.file? place).isSome = true <;> simp [h, hfile]

theorem isDirectory_congr (h : d'.directories = d.directories) (place : List String) :
    d'.isDirectory place = d.isDirectory place := by
  simp only [isDirectory, h]

/-- Only the directories decide whether a name can be passed. -/
theorem enter_of_ok (h : d'.directories = d.directories) {name : String}
    (henter : d.enter place name = .ok next) : d'.enter place name = .ok next := by
  unfold enter at henter ⊢
  cases hdemand : d.demand place with
  | error obstacle =>
    rw [hdemand] at henter
    exact nomatch henter
  | ok =>
    have hdemand' : d'.demand place = .ok () := by
      rw [demand_eq_ok_iff, isDirectory_congr h, ← demand_eq_ok_iff]
      exact hdemand
    rw [hdemand']
    rwa [hdemand] at henter

theorem foldlM_enter_of_ok (h : d'.directories = d.directories) {names : List String}
    (henter : names.foldlM d.enter place = .ok next) :
    names.foldlM d'.enter place = .ok next := by
  induction names generalizing place with
  | nil => exact henter
  | cons name names ih =>
    rw [List.foldlM_cons] at henter ⊢
    cases hname : d.enter place name with
    | error obstacle =>
      rw [hname] at henter
      exact nomatch henter
    | ok between =>
      rw [hname] at henter
      rw [enter_of_ok h hname]
      exact ih henter

/-- A path that leads somewhere leads there wherever the same directories are. -/
theorem locate_of_ok (h : d'.directories = d.directories) (hlocate : d.locate path = .ok place) :
    d'.locate path = .ok place := by
  unfold locate at hlocate ⊢
  dsimp only at hlocate ⊢
  split
  · next hempty => rwa [if_pos hempty] at hlocate
  next hempty =>
  rw [if_neg hempty] at hlocate
  split
  · next hlong => rwa [if_pos hlong] at hlocate
  next hlong =>
  rw [if_neg hlong] at hlocate
  exact foldlM_enter_of_ok h hlocate

theorem read_write {bytes : Bytes} (h : d.write path bytes = some d') :
    d'.read path = .file bytes := by
  unfold write at h
  cases hlocate : d.locate path with
  | error e =>
    rw [hlocate] at h
    exact nomatch h
  | ok place =>
    rw [hlocate] at h
    dsimp only at h
    split at h
    · exact nomatch h
    next hfree =>
    have hwritten := (Option.some.inj h).symm
    have hsame : d'.directories = d.directories := by rw [hwritten]
    have hfile : d'.file? place = some bytes := by simp [hwritten, file?]
    unfold read
    rw [locate_of_ok hsame hlocate]
    dsimp only
    rw [isDirectory_congr hsame, if_neg hfree, hfile]

theorem run_write (d : Directory) (path : String) (bytes : Bytes) :
    (storage.write path bytes).run d =
      ((d.write path bytes).isSome, (d.write path bytes).getD d) := by
  have hget : (get : StateM Directory Directory).run d = (d, d) := rfl
  unfold storage
  dsimp only
  rw [run_access, hget]
  cases d.write path bytes <;> rfl

/-- **A directory retains what is written.** -/
theorem retains : storage.Retains := by
  intro path bytes d hwritten
  rw [run_write] at hwritten ⊢
  obtain ⟨d', hd'⟩ := Option.isSome_iff_exists.1 hwritten
  rw [hd']
  exact read_write hd'

end Directory

namespace CommandLine

variable {Files : Type} {s : Storage (StateM Files)} {files files' : Files} {path line : String}
  {report : Verify.Report}

/-- The file of a table that was written holds the table. -/
theorem shows_table (hs : s.Retains)
    (h : (writeTable s path report).run files = (.ok line, files')) :
    s.Shows path files' report.table.toUTF8.data := by
  unfold writeTable at h
  rw [run_access] at h
  cases hparents : ((s.makeParents path).run files).1 with
  | error obstacle =>
    rw [hparents] at h
    exact nomatch congrArg Prod.fst h
  | ok =>
    rw [hparents] at h
    dsimp only at h
    rw [run_access] at h
    cases hwrite : ((s.write path report.table.toUTF8.data).run
        ((s.makeParents path).run files).2).1 with
    | false =>
      rw [hwrite] at h
      exact nomatch congrArg Prod.fst h
    | true =>
      rw [hwrite] at h
      obtain rfl := (congrArg Prod.snd h).symm
      exact hs _ _ _ hwrite

end CommandLine
end WeightLink
