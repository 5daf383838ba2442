import Dotpath.Proofs.CommandLine.SetGet

/-!
# The files that a run leaves

A run that does not end well leaves every file as it was: it writes a file last, after all that can
stop it (`Running.keepsIfStopped_command`).  A run that stores a value and ends well changes no file
but the one that it was asked to write, and there stands the document with the value in it
(`files_of_run`).
-/

namespace Dotpath

/-- A saved file holds its text, and no other file is changed. -/
theorem World.files_of_saveFile {w w' : World} {path text : String}
    (hsave : w.saveFile path text = .ok w') :
    w'.file? (.ofText w.here path) = some text ∧
      ∀ p, p ≠ .ofText w.here path → w'.file? p = w.file? p := by
  unfold saveFile at hsave
  dsimp only at hsave
  split at hsave
  · cases hsave
    exact ⟨file?_writeFile_self w _ text, fun p hp => file?_writeFile_of_ne hp text⟩
  · cases hsave

namespace CommandLine

variable {w : World} {words : List String} {i : Invocation}

theorem world_of_run_of_status_ne_zero (hstatus : (run w words).status ≠ 0) :
    (run w words).world = w := by
  unfold run at hstatus ⊢
  cases hread : readInvocation w words with
  | error m => rfl
  | ok i =>
    rw [hread] at hstatus
    dsimp only at hstatus ⊢
    cases hcommand : Running.command i.directory i.given i.command w with
    | ok output w' =>
      rw [hcommand] at hstatus
      exact absurd rfl hstatus
    | error stop w' => exact Running.keepsIfStopped_command _ _ _ w w' stop hcommand

/-- A run that ends well has come through its command. -/
theorem command_of_run_of_status_eq_zero (hread : readInvocation w words = .ok i)
    (hstatus : (run w words).status = 0) :
    Running.command i.directory i.given i.command w =
      .ok (run w words).output (run w words).world := by
  unfold run at hstatus ⊢
  rw [hread] at hstatus ⊢
  dsimp only at hstatus ⊢
  cases hcommand : Running.command i.directory i.given i.command w with
  | ok output w' => rfl
  | error stop w' =>
    rw [hcommand] at hstatus
    cases stop <;> cases hstatus

/-- A run that does not end well leaves the world as it was, whatever it was asked for.  A run that
stores a value and ends well has one target at most.  It prints the text of the document with the
value at the path, or writes this text to the target and changes no other file. -/
theorem files_of_run (w : World) (words : List String) :
    ((run w words).status ≠ 0 → (run w words).world = w) ∧
    ∀ (i : Invocation) (document path value : String) (output : Option String) (inPlace : Bool)
      (format : Option String), readInvocation w words = .ok i →
      i.command = .set document path value output inPlace format → (run w words).status = 0 →
      ∃ session text, Session.begin w i.directory i.given = .ok session ∧
        IsUpdated w session.settings document path value
          (format.getD session.settings.outputFormat) text ∧
        (inPlace = true → output = none) ∧
        match if inPlace then some document else output with
        | none => (run w words).output = line (trimBreaks text) ∧ (run w words).world = w
        | some target => (run w words).output = "" ∧
            (run w words).world.file? (.ofText w.here target) = some text ∧
            ∀ p, p ≠ .ofText w.here target → (run w words).world.file? p = w.file? p := by
  refine ⟨world_of_run_of_status_ne_zero, ?_⟩
  intro i document path value output inPlace format hread hset hstatus
  have hcommand := command_of_run_of_status_eq_zero hread hstatus
  rw [hset] at hcommand
  obtain ⟨session, _, hlook, hstore⟩ := Running.bind_eq_ok.1 hcommand
  obtain ⟨hsession, rfl⟩ := Running.look_eq_ok.1 hlook
  obtain ⟨hcheck, text, htext, hdeliver⟩ := Running.store_eq_ok.1 hstore
  refine ⟨session, text, orFault_eq_ok.1 hsession, stored_eq_ok_iff.1 htext,
    fun h => ((checkTarget_eq_ok.1 hcheck).1 h).1, ?_⟩
  rw [Running.deliver_eq_ok] at hdeliver
  cases htarget : if inPlace then some document else output with
  | none =>
    rw [htarget] at hdeliver
    exact hdeliver
  | some target =>
    rw [htarget] at hdeliver
    exact ⟨hdeliver.1, World.files_of_saveFile hdeliver.2⟩

/-! ### A file that is updated -/

theorem begin_emptyFile :
    Session.begin emptyFile none {} = .ok ⟨settingsPlace emptyFile none, {}⟩ := by
  -- The settings are in a file of another name, wherever it is.
  have hne : settingsPlace emptyFile none ++ [Settings.fileName] ≠ ["d"] := fun h => by
    have hlast := congrArg List.getLast? h
    rw [List.getLast?_concat] at hlast
    exact absurd hlast (by decide)
  have hfile : emptyFile.file? (Session.file (settingsPlace emptyFile none)) = none := by
    change List.lookup _ [(["d"], _)] = none
    rw [List.lookup_cons, Session.file, beq_false_of_ne hne]
    rfl
  have hsettings : effectiveSettings none none {} = .ok {} := by cbv
  rw [Session.begin, hfile]
  exact bind_eq_ok.2 ⟨{}, hsettings, rfl⟩

/-- A run that stores a list in the file and ends well, and one that lacks an argument. -/
theorem files_of_run_emptyFile :
    let words := ["set", "--in-place", "d", "1", "[]"]
    (run emptyFile words).status = 0 ∧
      (run emptyFile words).world.file? ["d"] = some filledText ∧
      (run emptyFile ["set", "d"]).status = 2 ∧ (run emptyFile ["set", "d"]).world = emptyFile := by
  have hread : readInvocation emptyFile ["set", "--in-place", "d", "1", "[]"] =
      .ok { command := .set "d" "1" "[]" none true none } := by decide +kernel
  have hheap : (Walker.write ⟨[Path.parse "1"], false, none⟩ {} unfilled (.ref 0) (.ref 1)).heap =
      filled (.text "1") := by cbv
  have hset := runSet_emptyFile walker_str rfl (by cbv) hheap
    (document_filled (k := .text "1") (by cbv) (by cbv))
  have hcommand : Running.command none {} (.set "d" "1" "[]" none true none) emptyFile =
      .ok "" filledFile :=
    Running.bind_eq_ok.2 ⟨_, _, Running.look_eq_ok.2 ⟨orFault_eq_ok.2 begin_emptyFile, rfl⟩,
      Running.outcome_eq_ok.1 hset⟩
  have hstatus : (run emptyFile ["set", "--in-place", "d", "1", "[]"]).status = 0 := by
    rw [run, hread]
    dsimp only
    rw [hcommand]
    rfl
  obtain ⟨session, text, hsession, hupdated, -, -, hfile, -⟩ :=
    (files_of_run emptyFile _).2 _ _ _ _ _ _ _ hread rfl hstatus
  have hplace : Place.ofText emptyFile.here "d" = ["d"] := by cbv
  have htext : filledText = text := by
    cases begin_emptyFile.symm.trans hsession
    obtain ⟨-, text', hstored, hsave⟩ := runSet_inPlace hset
    cases hstored.symm.trans (stored_eq_ok_iff.2 hupdated)
    have hsaved := (World.files_of_saveFile hsave).1
    rw [hplace] at hsaved
    exact Option.some.inj hsaved
  rw [hplace, ← htext] at hfile
  have hmisuse : (run emptyFile ["set", "d"]).status = 2 := by decide +kernel
  exact ⟨hstatus, hfile, hmisuse, (files_of_run emptyFile _).1 (by rw [hmisuse]; decide)⟩

end CommandLine

end Dotpath
