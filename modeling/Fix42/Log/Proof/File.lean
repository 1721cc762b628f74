import Mathlib.Data.Finset.Card
import Mathlib.Data.Fintype.Card
import Fix42.Log.File
import Fix42.Wire.Proof.RoundTrip

/-!
# Rotation keeps every log

`moveFile` goes up to the first missing number and renames on its way back. `moveFile_spec` says for each
depth what it does to the logs (`Shift.shifted`) and that it does nothing to any other file.
-/

namespace Fix42

namespace Log

open Wire (toChars)
open Shift (FirstGap shifted moveUp Moved)

variable {Dir : Type} {base path old new : Pathname Dir} {n : Nat}

/-! ## Names -/

theorem numbered_inj {m n : Nat} : base.numbered m = base.numbered n ↔ m = n := by
  constructor
  · intro h
    have hname := congrArg Pathname.filename h
    exact Wire.toChars_inj (List.append_cancel_right (List.cons.inj (List.append_cancel_left hname)).2)
  · rintro rfl
    rfl

theorem stem_append {x y : Wire.Bytes} (hx : x ≠ []) (hy : y ≠ []) (hperiod : period ∉ y) :
    stem (x ++ period :: y) = x := by
  have hdots : x ++ period :: y ≠ [period, period] := by
    intro h
    have hlast : (period :: y).getLast? = some period := by
      rw [← List.getLast?_append_of_ne_nil x (List.cons_ne_nil _ _), h]
      rfl
    rw [List.getLast?_cons_of_ne_nil hy] at hlast
    exact hperiod (List.mem_of_getLast? hlast)
  have hall := Getline.forall_ne_of_not_mem (mt List.mem_reverse.1 hperiod)
  have hdrop : (x ++ period :: y).reverse.dropWhile (· ≠ period) = period :: x.reverse := by
    rw [List.reverse_append, List.reverse_cons, List.append_assoc, List.dropWhile_append_of_pos hall]
    rfl
  rw [stem, if_neg hdots, hdrop, List.tail_cons, List.reverse_reverse]
  split
  · contradiction
  · rfl

/-- The file that is opened says what the logs are called. -/
theorem stem_numbered (hname : base.filename ≠ []) :
    stem (stem (base.numbered 0).filename) = base.filename := by
  have htext : (base.numbered 0).filename =
      (base.filename ++ period :: Wire.ascii "0") ++ period :: Wire.ascii "log" := by
    rw [List.append_assoc]
    rfl
  rw [htext, stem_append (by simp) (by decide) (by decide), stem_append hname (by decide) (by decide)]

variable [DecidableEq Dir] {fs fs' : FileSystem Dir} {it gap depth : Nat}

/-! ## One rename -/

theorem fileExists_numbered : fs.fileExists (base.numbered n) = (fs.logs base n).isSome := by
  rw [FileSystem.fileExists, FileSystem.logs, Bool.eq_iff_iff, decide_eq_true_eq, Finmap.lookup_isSome]

theorem lookup_rename_of_ne (hold : path ≠ old) (hnew : path ≠ new) :
    (fs.rename old new).files.lookup path = fs.files.lookup path := by
  rw [FileSystem.rename]
  split
  · rfl
  · rw [Finmap.lookup_insert_of_ne _ hnew, Finmap.lookup_erase_ne hold]

theorem logs_rename :
    (fs.rename (base.numbered n) (base.numbered (n + 1))).logs base = moveUp (fs.logs base) n := by
  rw [FileSystem.rename]
  split
  case h_1 hnone => rw [Shift.moveUp_of_none hnone]
  case h_2 content hsome =>
    have hlog : fs.logs base n = some content := hsome
    rw [moveUp, hlog, if_pos Option.isSome_some]
    funext m
    by_cases hnext : m = n + 1
    · subst hnext
      rw [Function.update_self]
      exact Finmap.lookup_insert _
    · have hne : base.numbered m ≠ base.numbered (n + 1) := fun h => hnext (numbered_inj.1 h)
      rw [Function.update_of_ne hnext, FileSystem.logs, Finmap.lookup_insert_of_ne _ hne]
      by_cases hn : m = n
      · subst hn
        rw [Function.update_self, Finmap.lookup_erase]
      · rw [Function.update_of_ne hn, Finmap.lookup_erase_ne fun h => hn (numbered_inj.1 h)]
        rfl

/-! ## The recursion -/

/-- What `moveFile` does from the number `it` on, `gap` being the first one that is missing. -/
theorem moveFile_spec (h : FirstGap (fs.logs base) it gap) (hdepth : gap - it < depth) :
    ∃ fs', File.moveFile depth fs base it = some fs' ∧
      fs'.logs base = shifted (fs.logs base) it gap ∧
      ∀ path, (∀ n, path ≠ base.numbered n) → fs'.files.lookup path = fs.files.lookup path := by
  induction depth generalizing it with
  | zero => cases hdepth
  | succ depth ih =>
    rw [File.moveFile, fileExists_numbered]
    rcases h.eq_or_lt with ⟨rfl, hnone⟩ | ⟨hlt, hsome⟩
    · -- nothing has this number, and so the rename does nothing
      rw [if_neg (by simp [hnone])]
      refine ⟨_, rfl, ?_, fun path hpath => lookup_rename_of_ne (hpath _) (hpath _)⟩
      rw [logs_rename, Shift.moveUp_of_none hnone, Shift.shifted_self hnone]
    · obtain ⟨fs', hmove, hlogs, hothers⟩ := ih (h.next hlt) (by omega)
      rw [if_pos hsome, hmove]
      refine ⟨_, rfl, ?_, fun path hpath => ?_⟩
      · rw [logs_rename, hlogs, Shift.moveUp_shifted hlt hsome]
      · rw [lookup_rename_of_ne (hpath _) (hpath _), hothers path hpath]

theorem mem_files_of_isSome (h : (fs.logs base n).isSome) : base.numbered n ∈ fs.files.keys :=
  Finmap.mem_keys.2 (Finmap.lookup_isSome.1 h)

theorem finite_logs (fs : FileSystem Dir) (base : Pathname Dir) :
    {n | (fs.logs base n).isSome}.Finite := by
  have hinj : Function.Injective base.numbered := fun m n h => numbered_inj.1 h
  exact (fs.files.keys.finite_toSet.preimage hinj.injOn).subset fun n hn => mem_files_of_isSome hn

/-- There is a file for each call but the last. -/
theorem gap_le_card (h : FirstGap (fs.logs base) 0 gap) : gap ≤ fs.files.keys.card := by
  apply Finset.le_card_of_inj_on_range base.numbered
  · exact fun n hn => mem_files_of_isSome (h.full n (Nat.zero_le n) hn)
  · exact fun m _ n _ hmn => numbered_inj.1 hmn

/-- The depth is enough, whatever files there are. -/
theorem moveFile_total (fs : FileSystem Dir) (base : Pathname Dir) :
    ∃ gap fs', FirstGap (fs.logs base) 0 gap ∧
      File.moveFile (fs.files.keys.card + 1) fs base 0 = some fs' ∧
      fs'.logs base = shifted (fs.logs base) 0 gap ∧
      ∀ path, (∀ n, path ≠ base.numbered n) → fs'.files.lookup path = fs.files.lookup path := by
  obtain ⟨gap, hgap⟩ := Shift.exists_firstGap (finite_logs fs base)
  obtain ⟨fs', hfs'⟩ := moveFile_spec hgap (Nat.lt_succ_of_le (gap_le_card hgap))
  exact ⟨gap, fs', hgap, hfs'⟩

theorem rotate_spec (fs : FileSystem Dir) (hname : base.filename ≠ []) :
    ∃ fs', File.rotate fs (base.numbered 0) = some fs' ∧ Rotated base fs fs' := by
  rw [File.rotate, fileExists_numbered, stem_numbered hname]
  by_cases h0 : (fs.logs base 0).isSome
  · obtain ⟨gap, fs', hgap, hmove, hlogs, hothers⟩ := moveFile_total fs base
    rw [if_pos h0]
    exact ⟨fs', hmove, hlogs ▸ Shift.moved_shifted hgap, hothers⟩
  · rw [if_neg h0]
    have hnone : fs.logs base 0 = none := by simpa using h0
    have hmoved := Shift.moved_shifted ⟨Nat.le_refl 0, by omega, hnone⟩
    rw [Shift.shifted_self hnone] at hmoved
    exact ⟨fs, rfl, hmoved, fun _ _ => rfl⟩

/-! ## The new log -/

theorem logs_openFile (hn : n ≠ 0) :
    (fs.openFile (base.numbered 0)).logs base n = fs.logs base n := by
  rw [FileSystem.openFile]
  split
  · rw [FileSystem.logs, Finmap.lookup_insert_of_ne _ fun h => hn (numbered_inj.1 h)]
    rfl
  · rfl

theorem files_createDirectories {success : Bool} {dir : Dir} :
    (fs.createDirectories success dir).files = fs.files := by
  cases success <;> rfl

theorem Rotated.of_files {fs₀ : FileSystem Dir} (h : Rotated base fs₀ fs')
    (hfiles : fs₀.files = fs.files) : Rotated base fs fs' := by
  have hlogs : fs₀.logs base = fs.logs base := by
    funext n
    rw [FileSystem.logs, hfiles]
    rfl
  exact ⟨hlogs ▸ h.moved, fun path hpath => by rw [h.others path hpath, hfiles]⟩

/-- `Init` moves the logs there are, and then opens the new one. -/
theorem init_spec (created : Bool) (fs : FileSystem Dir) (hname : base.filename ≠ []) :
    ∃ rotated, Rotated base fs rotated ∧
      File.init created fs base = some (rotated.openFile (base.numbered 0)) := by
  obtain ⟨fs₀, hfiles, hinit⟩ : ∃ fs₀, fs₀.files = fs.files ∧ File.init created fs base =
      (File.rotate fs₀ (base.numbered 0)).map (·.openFile (base.numbered 0)) := by
    rw [File.init]
    split
    · exact ⟨fs, rfl, rfl⟩
    · exact ⟨_, files_createDirectories, rfl⟩
  obtain ⟨rotated, hrotate, hrotated⟩ := rotate_spec fs₀ hname
  rw [hinit, hrotate]
  exact ⟨rotated, hrotated.of_files hfiles, rfl⟩

/-- The new log is put in the place that is free then, so every log that was there still is. -/
theorem rotation_keeps (created : Bool) (fs : FileSystem Dir) (file : Pathname Dir)
    (hname : file.filename ≠ []) :
    ∃ rotated, Rotated file fs rotated ∧
      File.init created fs file = some (rotated.openFile (file.numbered 0)) ∧
      ∀ n, (fs.logs file n).isSome →
        (rotated.openFile (file.numbered 0)).logs file (Shift.renumber (fs.logs file) n) =
          fs.logs file n := by
  obtain ⟨rotated, hrotated, hinit⟩ := init_spec created fs hname
  exact ⟨rotated, hrotated, hinit, fun n hn =>
    hrotated.moved.kept_of_eq (fun _ h0 => logs_openFile h0) hn⟩

/-- Logs 0, 1 and 3 are there. -/
def serverLogs : FileSystem String where
  directories := {"./logs"}
  files := [0, 1, 3].map (fun n => ⟨Pathname.numbered ⟨"./logs", Wire.ascii "server"⟩ n, toChars n⟩)
    |>.toFinmap

theorem rotation_keeps_server :
    ∃ fs, File.init true serverLogs ⟨"./logs", Wire.ascii "server"⟩ = some fs ∧
      fs.logs ⟨"./logs", Wire.ascii "server"⟩ 1 = some (Wire.ascii "0") ∧
      fs.logs ⟨"./logs", Wire.ascii "server"⟩ 2 = some (Wire.ascii "1") ∧
      fs.logs ⟨"./logs", Wire.ascii "server"⟩ 3 = some (Wire.ascii "3") := by
  obtain ⟨rotated, -, hinit, hkept⟩ :=
    rotation_keeps true serverLogs ⟨"./logs", Wire.ascii "server"⟩ (by decide)
  exact ⟨_, hinit, hkept 0 (by decide), hkept 1 (by decide), hkept 3 (by decide)⟩

/-! ## Start after start -/

theorem Session.keeps (hname : base.filename ≠ []) (h : Session base fs fs') :
    Shift.Keeps (fs.logs base) (fs'.logs base) := by
  obtain ⟨created, started, hinit, hwritten⟩ := h
  obtain ⟨rotated, hrotated, hinit'⟩ := init_spec created fs hname
  cases hinit.symm.trans hinit'
  exact hrotated.moved.keeps fun n hn => (hwritten n hn).trans (logs_openFile hn)

/-- However often the program is started, no log is lost, and they stay in their order. -/
theorem sessions_keep (hname : base.filename ≠ [])
    (h : Relation.ReflTransGen (Session base) fs fs') :
    Shift.Keeps (fs.logs base) (fs'.logs base) := by
  induction h with
  | refl => exact .refl
  | tail _ hsession ih => exact ih.trans (hsession.keeps hname)

/-! ## No name -/

/-- Where `base` ends in a `/`, `stem` takes nothing away the second time, and the log that is opened next
stays where it is. -/
theorem rotate_nameless {dir : Dir} :
    ∃ fs', File.rotate fs (Pathname.numbered ⟨dir, []⟩ 0) = some fs' ∧
      fs'.logs ⟨dir, []⟩ 0 = fs.logs ⟨dir, []⟩ 0 := by
  have hstem : stem (stem ((⟨dir, []⟩ : Pathname Dir).numbered 0).filename) = Wire.ascii ".0" := by
    change stem (stem (Wire.ascii ".0.log")) = _
    decide
  rw [File.rotate, hstem]
  split
  · obtain ⟨-, fs', -, hmove, -, hothers⟩ := moveFile_total fs ⟨dir, Wire.ascii ".0"⟩
    refine ⟨fs', hmove, hothers _ fun n h => ?_⟩
    have hlength := congrArg (fun path => path.filename.length) h
    simp only [Pathname.numbered, List.length_append, List.length_cons, List.length_nil] at hlength
    have h0 : (toChars 0).length = 1 := by decide
    have h2 : (Wire.ascii ".0").length = 2 := by decide
    omega
  · exact ⟨fs, rfl, rfl⟩

end Log

end Fix42
