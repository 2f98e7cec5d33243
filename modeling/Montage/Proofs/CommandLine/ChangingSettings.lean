import Montage.CommandLine.Commands
import Montage.CommandLine.Session
import Montage.Proofs.Files.Growing
import Montage.Proofs.Files.Running
import Montage.Proofs.Project.Overlays

/-!
Contract: settings are what the last calls that succeeded made of them.

Every call that changes something reads the settings, changes them, makes their
directories and writes all of them back. It can fail at each step. Until the
text is written only directories are new, so what is loaded stays the same,
unless the path of the settings goes up through one of them. Once the text is
written it is read back field by field.

Owns: hosts whose files are on a disk, what one call does, and
`settings_last_writer_wins`.
Does not own: what a text tells, in `Proofs.Project.Overlays`.
-/

namespace Montage.CommandLine

open Montage.Files

/-! ## Hosts on a disk -/

/-- A host whose files are on a disk. Reading tells what is there. Making a directory may fail for
any reason and may leave directories behind. A text is written in full, or the disk stays. -/
structure ActsOnDisk {σ : Type} [Host (StateM σ)] (diskOf : σ → Disk) : Prop where
  reads : ∀ state path, ∃ after,
    (FileSystem.readText path : StateM σ (Except OsError String)).run state =
      ((diskOf state).readText path, after) ∧ diskOf after = diskOf state
  makes : ∀ state path, (diskOf state).Grows
    (diskOf ((FileSystem.ensureDirectory path : StateM σ (Except OsError Unit)).run state).2)
  writes : ∀ state path text outcome after,
    (FileSystem.writeText path text : StateM σ (Except OsError Unit)).run state =
        (outcome, after) →
      (outcome = .ok () ∧ (diskOf after).readText path = .ok text) ∨
        ((∃ cause, outcome = .error cause) ∧ diskOf after = diskOf state)
  prints : ∀ state text,
    diskOf ((Host.print text : StateM σ Unit).run state).2 = diskOf state

theorem actsOnDisk_session : ActsOnDisk Session.disk where
  reads := fun session path => ⟨session, rfl, rfl⟩
  makes := fun session path => Disk.grows_ensureFirst session.disk (Path.ancestors path)
  writes := by
    intro session path text outcome after writes
    change ((session.disk.settle (session.disk.writeBytes path text.toUTF8 false)).1,
      { session with disk :=
        (session.disk.settle (session.disk.writeBytes path text.toUTF8 false)).2 }) =
      (outcome, after) at writes
    cases written : session.disk.writeBytes path text.toUTF8 false with
    | ok kept =>
        rw [written] at writes
        cases writes
        exact Or.inl ⟨rfl, Disk.readText_of_writeBytes written⟩
    | error cause =>
        rw [written] at writes
        cases writes
        exact Or.inr ⟨⟨cause, rfl⟩, rfl⟩
  prints := fun session text => rfl

variable {σ : Type} [Host (StateM σ)] {diskOf : σ → Disk} {state after : σ}
  {path workspace : String} {outcome : Except Error Unit}

/-! ## Loading -/

/-- The settings that are loaded in a state. -/
def loaded (path workspace : String) (state : σ) : Settings :=
  ((Settings.load path workspace : StateM σ Settings).run state).1

section Loading

variable {text : String}

theorem run_load (acts : ActsOnDisk diskOf) (path workspace : String) (state : σ) :
    ∃ after, (Settings.load path workspace : StateM σ Settings).run state =
        (match (diskOf state).readText path with
          | .ok text => Settings.ofText workspace text
          | .error _ => Settings.defaults workspace, after) ∧ diskOf after = diskOf state := by
  obtain ⟨after, read, same⟩ := acts.reads state path
  refine ⟨after, ?_, same⟩
  rw [Settings.load, StateT.run_bind, read]
  cases (diskOf state).readText path <;> rfl

theorem loaded_of_readText (acts : ActsOnDisk diskOf)
    (reads : (diskOf state).readText path = .ok text) (workspace : String) :
    loaded path workspace state = Settings.ofText workspace text := by
  obtain ⟨_, ran, _⟩ := run_load acts path workspace state
  rw [loaded, ran, reads]

theorem loaded_of_no_text (acts : ActsOnDisk diskOf)
    (nothing : ∀ text, (diskOf state).readText path ≠ .ok text) (workspace : String) :
    loaded path workspace state = Settings.defaults workspace := by
  obtain ⟨_, ran, _⟩ := run_load acts path workspace state
  rw [loaded, ran]
  cases reads : (diskOf state).readText path with
  | ok text => exact absurd reads (nothing text)
  | error cause => rfl

/-- What is loaded depends on the text alone. -/
theorem loaded_congr (acts : ActsOnDisk diskOf)
    (same : ∀ text, (diskOf after).readText path = .ok text ↔ (diskOf state).readText path = .ok text)
    (workspace : String) : loaded path workspace after = loaded path workspace state := by
  by_cases reads : ∃ text, (diskOf state).readText path = .ok text
  · obtain ⟨text, reads⟩ := reads
    rw [loaded_of_readText acts reads, loaded_of_readText acts ((same text).mpr reads)]
  · rw [not_exists] at reads
    rw [loaded_of_no_text acts reads,
      loaded_of_no_text acts fun text alsoReads => reads text ((same text).mp alsoReads)]

end Loading

/-! ## One call -/

theorem grows_of_ensure (acts : ActsOnDisk diskOf)
    (ran : (orFail (FileSystem.ensureDirectory path) : ExceptT Error (StateM σ) Unit).run.run state =
      (outcome, after)) : (diskOf state).Grows (diskOf after) := by
  obtain ⟨result, made, -⟩ := run_orFail_cases ran
  have grown := acts.makes state path
  rw [made] at grown
  exact grown

theorem grows_of_ensureParent (acts : ActsOnDisk diskOf)
    (ran : (ensureParent path : ExceptT Error (StateM σ) Unit).run.run state = (outcome, after)) :
    (diskOf state).Grows (diskOf after) := by
  unfold ensureParent at ran
  split at ran
  · exact grows_of_ensure acts ran
  · cases ran
    exact .refl _

theorem grows_of_ensureDirectories (acts : ActsOnDisk diskOf) {settings : Settings}
    (ran : (settings.ensureDirectories : ExceptT Error (StateM σ) Unit).run.run state =
      (outcome, after)) : (diskOf state).Grows (diskOf after) := by
  rcases run_bind_cases ran with ⟨cause, first, -⟩ | ⟨_, between, first, second⟩
  · exact grows_of_ensure acts first
  · exact (grows_of_ensure acts first).trans (grows_of_ensure acts second)

/-- How writing settings ends: the text is there, or directories at most are new. -/
inductive Ends (diskOf : σ → Disk) (path text : String) (state : σ) :
    Except Error Unit → σ → Prop where
  | written {after : σ} (reads : (diskOf after).readText path = .ok text) :
      Ends diskOf path text state (.ok ()) after
  | failed {cause : Error} {after : σ} (grown : (diskOf state).Grows (diskOf after)) :
      Ends diskOf path text state (.error cause) after

theorem save_ends (acts : ActsOnDisk diskOf) {settings : Settings}
    (ran : (settings.save path : ExceptT Error (StateM σ) Unit).run.run state = (outcome, after)) :
    Ends diskOf path settings.toJson.indented state outcome after := by
  rcases run_bind_cases ran with ⟨cause, first, rfl⟩ | ⟨_, between, first, second⟩
  · exact .failed (grows_of_ensureParent acts first)
  · have grown := grows_of_ensureParent acts first
    obtain ⟨result, wrote, ended⟩ := run_orFail_cases second
    rcases acts.writes _ _ _ _ _ wrote with ⟨rfl, reads⟩ | ⟨⟨cause, rfl⟩, same⟩
    · rcases ended with ⟨value, _, rfl⟩ | ⟨cause, failed, -⟩
      · exact .written reads
      · cases failed
    · rcases ended with ⟨value, succeeded, -⟩ | ⟨cause, _, rfl⟩
      · cases succeeded
      · exact .failed (same ▸ grown)

theorem run_say (acts : ActsOnDisk diskOf) (text : String) (state : σ) :
    ∃ after, (say text : ExceptT Error (StateM σ) Unit).run.run state = (.ok (), after) ∧
      diskOf after = diskOf state := by
  exact ⟨_, rfl, acts.prints state text⟩

theorem keepSettings_ends (acts : ActsOnDisk diskOf) {settings : Settings}
    (ran : (keepSettings workspace settings : ExceptT Error (StateM σ) Unit).run.run state =
      (outcome, after)) :
    Ends diskOf (Settings.filePath workspace) settings.toJson.indented state outcome after := by
  rcases run_bind_cases ran with ⟨cause, first, rfl⟩ | ⟨_, ready, first, onward⟩
  · exact .failed (grows_of_ensureDirectories acts first)
  have grown := grows_of_ensureDirectories acts first
  rcases run_bind_cases onward with ⟨cause, second, rfl⟩ | ⟨_, kept, second, last⟩
  · cases save_ends acts second with
    | failed more => exact .failed (grown.trans more)
  · obtain ⟨told, toldRan, same⟩ := run_say acts
      (Display.success ("Saved settings to " ++ Settings.filePath workspace)) kept
    cases toldRan.symm.trans last
    cases save_ends acts second with
    | written reads => exact .written (same ▸ reads)

/-- What a call does: it shows the settings, it keeps them as changed, or it fails before that. -/
inductive Changes (diskOf : σ → Disk) (workspace : String) (choice : SettingsChoice) (state : σ) :
    Except Error Unit → σ → Prop where
  | shown {after : σ} (idle : choice.hasChanges = false) (same : diskOf after = diskOf state) :
      Changes diskOf workspace choice state (.ok ()) after
  | kept {after : σ} (changes : choice.hasChanges = true)
      (reads : (diskOf after).readText (Settings.filePath workspace) =
        .ok (choice.apply (loaded (Settings.filePath workspace) workspace state)).toJson.indented) :
      Changes diskOf workspace choice state (.ok ()) after
  | refused {cause : Error} {after : σ} (changes : choice.hasChanges = true)
      (grown : (diskOf state).Grows (diskOf after)) :
      Changes diskOf workspace choice state (.error cause) after

theorem changeSettings_changes (acts : ActsOnDisk diskOf) {choice : SettingsChoice}
    (ran : (changeSettings workspace choice : ExceptT Error (StateM σ) Unit).run.run state =
      (outcome, after)) : Changes diskOf workspace choice state outcome after := by
  obtain ⟨opened, load, opens⟩ := run_load acts (Settings.filePath workspace) workspace state
  have settings : loaded (Settings.filePath workspace) workspace state =
    match (diskOf state).readText (Settings.filePath workspace) with
      | .ok text => Settings.ofText workspace text
      | .error _ => Settings.defaults workspace := by rw [loaded, load]
  rw [← settings] at load
  have asked : (loadSettings workspace : ExceptT Error (StateM σ) Settings).run.run state =
      (.ok (loaded (Settings.filePath workspace) workspace state), opened) := by
    rw [loadSettings, ExceptT.run_lift, StateT.run_map, load]
    rfl
  unfold changeSettings at ran
  rw [run_bind asked] at ran
  cases changes : choice.hasChanges with
  | false =>
      simp only [changes, Bool.false_eq_true, ↓reduceIte] at ran
      obtain ⟨told, toldRan, same⟩ := run_say acts (Display.settings
        (choice.apply (loaded (Settings.filePath workspace) workspace state))) opened
      cases toldRan.symm.trans ran
      exact .shown changes (same.trans opens)
  | true =>
      simp only [changes, ↓reduceIte] at ran
      rcases run_bind_cases ran with ⟨cause, keeps, rfl⟩ | ⟨_, kept, keeps, last⟩
      · cases keepSettings_ends acts keeps with
        | failed grown => exact .refused changes (opens ▸ grown)
      · obtain ⟨told, toldRan, same⟩ := run_say acts (Display.settings
          (choice.apply (loaded (Settings.filePath workspace) workspace state))) kept
        cases toldRan.symm.trans last
        cases keepSettings_ends acts keeps with
        | written reads => exact .kept changes (same ▸ reads)

/-! ## Calls in turn -/

/-- Carries out calls one after another; tells which of them succeeded. -/
def callAll (workspace : String) : List SettingsChoice → σ → List SettingsChoice × σ
  | [], state => ([], state)
  | choice :: rest, state =>
    match (changeSettings workspace choice : ExceptT Error (StateM σ) Unit).run.run state with
    | (.ok (), after) =>
      let others := callAll workspace rest after
      (choice :: others.1, others.2)
    | (.error _, after) => callAll workspace rest after

/-- The last value that calls give for a setting. -/
def lastGiven (setting : SettingsChoice → Option String) (choices : List SettingsChoice) :
    Option String :=
  (choices.filterMap setting).getLast?

/-- Settings of which each has the last value given for it, or else its default. -/
def lastWritten (base : Settings) (choices : List SettingsChoice) : Settings where
  projectDir := (lastGiven (·.projectDir) choices).getD base.projectDir
  exportDir := (lastGiven (·.exportDir) choices).getD base.exportDir
  ffmpegPath := lastGiven (·.ffmpeg) choices <|> base.ffmpegPath

theorem lastGiven_cons (setting : SettingsChoice → Option String) (choice : SettingsChoice)
    (rest : List SettingsChoice) :
    lastGiven setting (choice :: rest) = (lastGiven setting rest <|> setting choice) := by
  unfold lastGiven
  cases given : setting choice with
  | none =>
      rw [List.filterMap_cons_none given]
      cases (rest.filterMap setting).getLast? <;> rfl
  | some path =>
      rw [List.filterMap_cons_some given, List.getLast?_cons]
      cases (rest.filterMap setting).getLast? <;> rfl

/-- A call writes what it gives over what was there. -/
theorem lastWritten_cons (base : Settings) (choice : SettingsChoice) (rest : List SettingsChoice) :
    lastWritten base (choice :: rest) = lastWritten (choice.apply base) rest := by
  simp only [lastWritten, lastGiven_cons, SettingsChoice.apply, Settings.mk.injEq]
  refine ⟨?_, ?_, ?_⟩
  · cases lastGiven (·.projectDir) rest <;> rfl
  · cases lastGiven (·.exportDir) rest <;> rfl
  · cases lastGiven (·.ffmpeg) rest <;> rfl

/-- None of the paths that a call gives is empty. -/
structure SettingsChoice.IsFilled (choice : SettingsChoice) : Prop where
  projectDir : choice.projectDir ≠ some ""
  exportDir : choice.exportDir ≠ some ""
  ffmpeg : choice.ffmpeg ≠ some ""

theorem SettingsChoice.apply_of_idle {choice : SettingsChoice} (idle : choice.hasChanges = false)
    (settings : Settings) : choice.apply settings = settings := by
  obtain ⟨projectDir, exportDir, ffmpeg⟩ := choice
  simp only [SettingsChoice.hasChanges, Bool.or_eq_false_iff, Option.isSome_eq_false_iff,
    Option.isNone_iff_eq_none] at idle
  obtain ⟨⟨rfl, rfl⟩, rfl⟩ := idle
  rfl

/-- What is changed to paths that are not empty is still read back as it is written. -/
theorem SettingsChoice.IsFilled.isKept {choice : SettingsChoice} (filled : choice.IsFilled)
    {settings : Settings} (kept : settings.IsKept workspace) :
    (choice.apply settings).IsKept workspace := by
  obtain ⟨projectDir, exportDir, ffmpeg⟩ := choice
  refine ⟨?_, ?_, ?_⟩
  · cases projectDir with
    | none => exact kept.projectDir
    | some path => exact fun blank => absurd (congrArg some blank) filled.projectDir
  · cases exportDir with
    | none => exact kept.exportDir
    | some path => exact fun blank => absurd (congrArg some blank) filled.exportDir
  · cases ffmpeg with
    | none => exact kept.ffmpegPath
    | some path => exact filled.ffmpeg

/-- No call that fails makes a text appear under the path of the settings. -/
def FailQuietly (diskOf : σ → Disk) (workspace : String) : List SettingsChoice → σ → Prop
  | [], _ => True
  | choice :: rest, state =>
    match (changeSettings workspace choice : ExceptT Error (StateM σ) Unit).run.run state with
    | (.ok (), after) => FailQuietly diskOf workspace rest after
    | (.error _, after) =>
      (diskOf state).NothingAppears (diskOf after) (Settings.filePath workspace) ∧
        FailQuietly diskOf workspace rest after

/-- Under a settled path nothing appears, whatever the calls are. -/
theorem failQuietly_of_settled (acts : ActsOnDisk diskOf)
    (settled : (diskOf state).Settled (Settings.filePath workspace))
    (choices : List SettingsChoice) : FailQuietly diskOf workspace choices state := by
  induction choices generalizing state with
  | nil => trivial
  | cons choice rest inductionHypothesis =>
      unfold FailQuietly
      rcases ran : (changeSettings workspace choice : ExceptT Error (StateM σ) Unit).run.run state
        with ⟨outcome, after⟩
      cases changeSettings_changes acts ran with
      | shown _ same => exact inductionHypothesis (same ▸ settled)
      | kept _ reads => exact inductionHypothesis (.of_readText reads)
      | refused _ grown =>
          exact ⟨settled _ grown, inductionHypothesis (settled.grows grown)⟩

/-- Each call that succeeds changes what is loaded as it was asked to, and no other call changes
it. -/
theorem loaded_callAll (acts : ActsOnDisk diskOf) {choices : List SettingsChoice}
    (filled : ∀ choice ∈ choices, choice.IsFilled)
    (quiet : FailQuietly diskOf workspace choices state)
    (kept : (loaded (Settings.filePath workspace) workspace state).IsKept workspace) :
    loaded (Settings.filePath workspace) workspace (callAll workspace choices state).2 =
      lastWritten (loaded (Settings.filePath workspace) workspace state)
        (callAll workspace choices state).1 := by
  induction choices generalizing state with
  | nil => rfl
  | cons choice rest inductionHypothesis =>
      obtain ⟨here, others⟩ := List.forall_mem_cons.mp filled
      unfold FailQuietly at quiet
      unfold callAll
      rcases ran : (changeSettings workspace choice : ExceptT Error (StateM σ) Unit).run.run state
        with ⟨outcome, after⟩
      rw [ran] at quiet
      cases changeSettings_changes acts ran with
      | shown idle same =>
          have sameLoaded : loaded (Settings.filePath workspace) workspace after =
              loaded (Settings.filePath workspace) workspace state :=
            loaded_congr acts (fun text => by rw [same]) workspace
          simp only [lastWritten_cons, choice.apply_of_idle idle]
          rw [← sameLoaded] at kept ⊢
          exact inductionHypothesis others quiet kept
      | kept _ reads =>
          have changed := here.isKept kept
          have again := loaded_of_readText acts reads workspace
          rw [Settings.ofText_indented changed] at again
          simp only [lastWritten_cons]
          rw [← again] at changed ⊢
          exact inductionHypothesis others quiet changed
      | refused _ grown =>
          have sameLoaded := loaded_congr acts (fun text => quiet.1.readText_iff grown) workspace
          simp only
          rw [← sameLoaded] at kept ⊢
          exact inductionHypothesis others quiet.2 kept

/-! ## Settings on a host -/

/-- Settings are what the last calls that succeeded made of them, whatever failed in between. -/
structure LastWriterWins (diskOf : σ → Disk) (workspace : String) : Prop where
  /-- Saved settings are loaded again. -/
  saved : ∀ settings path (state after : σ), settings.IsFilled →
    (settings.save path : ExceptT Error (StateM σ) Unit).run.run state = (.ok (), after) →
      loaded path workspace after = settings
  /-- Calls that start without a settings file leave in each setting the last value that a
  successful one gave for it, or its default, unless a failed one lets a file appear. -/
  calls : ∀ choices (state : σ), (∀ choice ∈ choices, choice.IsFilled) →
    (∀ text, (diskOf state).readText (Settings.filePath workspace) ≠ .ok text) →
    FailQuietly diskOf workspace choices state →
      loaded (Settings.filePath workspace) workspace (callAll workspace choices state).2 =
        lastWritten (Settings.defaults workspace) (callAll workspace choices state).1
  /-- A call without options succeeds and changes nothing. -/
  idle : ∀ (choice : SettingsChoice) (state : σ), choice.hasChanges = false →
    ∃ after, (changeSettings workspace choice : ExceptT Error (StateM σ) Unit).run.run state =
      (.ok (), after) ∧ diskOf after = diskOf state
  /-- A call that fails leaves all files as they were, and hence what is loaded, as long as no
  directory that it made leads the path of the settings to another file. -/
  failed : ∀ choice (state after : σ) cause,
    (changeSettings workspace choice : ExceptT Error (StateM σ) Unit).run.run state =
        (.error cause, after) →
      (diskOf state).Grows (diskOf after) ∧
        ((diskOf state).NothingAppears (diskOf after) (Settings.filePath workspace) →
          loaded (Settings.filePath workspace) workspace after =
            loaded (Settings.filePath workspace) workspace state)
  /-- No failed call lets a file appear where the path of the settings leads somewhere already, or
  does not go up. -/
  certain : ∀ choices (state : σ), (diskOf state).IsCertain (Settings.filePath workspace) →
    FailQuietly diskOf workspace choices state
  /-- A file that is no readable overlay tells nothing. -/
  unreadable : ∀ path (state : σ), (∀ text, (diskOf state).readText path = .ok text →
    ∀ overlay, ¬ Settings.IsOverlay text overlay) →
      loaded path workspace state = Settings.defaults workspace
  /-- A readable one counts field by field. -/
  overlaid : ∀ path text overlay (state : σ), (diskOf state).readText path = .ok text →
    Settings.IsOverlay text overlay →
      Settings.Overlaid workspace overlay (loaded path workspace state)

/-- On every host whose files are on a disk, whichever of its directories can be made and whichever
of its texts can be written, the last writer of a setting wins. -/
theorem settings_last_writer_wins (acts : ActsOnDisk diskOf) (workspace : String) :
    LastWriterWins diskOf workspace where
  saved := by
    intro settings path state after filled saves
    cases save_ends acts saves with
    | written reads =>
        rw [loaded_of_readText acts reads, Settings.ofText_indented (filled.isKept workspace)]
  calls := by
    intro choices state filled noFile quiet
    have start := loaded_of_no_text acts noFile workspace
    rw [← start]
    apply loaded_callAll acts filled quiet
    rw [start]
    exact Settings.isKept_defaults workspace
  idle := by
    intro choice state idle
    rcases ran : (changeSettings workspace choice : ExceptT Error (StateM σ) Unit).run.run state
      with ⟨outcome, after⟩
    cases changeSettings_changes acts ran with
    | shown _ same => exact ⟨after, rfl, same⟩
    | kept changes _ => cases idle.symm.trans changes
    | refused changes _ => cases idle.symm.trans changes
  failed := by
    intro choice state after cause ran
    cases changeSettings_changes acts ran with
    | refused _ grown =>
        refine ⟨grown, fun nothing => ?_⟩
        exact loaded_congr acts (fun text => nothing.readText_iff grown) workspace
  certain := fun choices _ certain => failQuietly_of_settled acts certain.settled choices
  unreadable := by
    intro path state noOverlay
    by_cases reads : ∃ text, (diskOf state).readText path = .ok text
    · obtain ⟨text, reads⟩ := reads
      rw [loaded_of_readText acts reads, Settings.ofText_of_not_overlay (noOverlay text reads)]
    · exact loaded_of_no_text acts (not_exists.mp reads) workspace
  overlaid := by
    intro path text overlay state reads isOverlay
    rw [loaded_of_readText acts reads]
    exact Settings.overlaid_ofText isOverlay

/-! Four calls in a new workspace. The second asks for projects inside of a film and fails, the
third shows the settings, and the last changes the exports once more. -/

def newWorkspace : Session where
  disk := { home := [], entries := [(["work"], .directory), (["film.mp4"], .file ⟨#[]⟩ false)] }
  printed := ""
  now := .epoch
  stamp := "19700101_000000"
  probe _ := .error .noClips
  engine _ disk := (.crashesAtStart, disk)

def fourCalls : List SettingsChoice :=
  [⟨none, some "/renders", none⟩, ⟨some "/film.mp4/projects", none, none⟩, ⟨none, none, none⟩,
    ⟨none, some "/exports", some "/opt/ffmpeg"⟩]

theorem fourCalls_last_writer_wins :
    LastWriterWins Session.disk "/work" ∧
      (callAll "/work" fourCalls newWorkspace).1 =
        [⟨none, some "/renders", none⟩, ⟨none, none, none⟩,
          ⟨none, some "/exports", some "/opt/ffmpeg"⟩] ∧
      loaded "/work/settings.json" "/work" (callAll "/work" fourCalls newWorkspace).2 =
        ⟨"/work/_projects", "/exports", some "/opt/ffmpeg"⟩ := by
  have wins := settings_last_writer_wins actsOnDisk_session "/work"
  have succeeded : (callAll "/work" fourCalls newWorkspace).1 =
      [⟨none, some "/renders", none⟩, ⟨none, none, none⟩,
        ⟨none, some "/exports", some "/opt/ffmpeg"⟩] := by
    decide +kernel
  refine ⟨wins, succeeded, ?_⟩
  have filled : ∀ choice ∈ fourCalls, choice.IsFilled := by
    have each : ∀ choice ∈ fourCalls, choice.projectDir ≠ some "" ∧ choice.exportDir ≠ some "" ∧
        choice.ffmpeg ≠ some "" := by decide
    intro choice member
    obtain ⟨projectDir, exportDir, ffmpeg⟩ := each choice member
    exact ⟨projectDir, exportDir, ffmpeg⟩
  have noFile : ∀ text, newWorkspace.disk.readText "/work/settings.json" ≠ .ok text := by
    intro text reads
    cases reads
  have leads : newWorkspace.disk.locate "/work/settings.json" = .ok ["work", "settings.json"] := rfl
  have quiet := wins.certain fourCalls newWorkspace (.leads leads)
  have last := wins.calls fourCalls newWorkspace filled noFile quiet
  rw [succeeded] at last
  exact last.trans (by decide +kernel)

/-- Settings of a workspace that another path goes up to, from a directory that is not there. -/
def detour : Session where
  disk :=
    { home := []
      entries := [(["cfg"], .directory),
        (["cfg", "settings.json"], .file "\x7b\"ffmpegPath\": \"/opt/ffmpeg\"\x7d".toUTF8 false),
        (["film.mp4"], .file ⟨#[]⟩ false)] }
  printed := ""
  now := .epoch
  stamp := "19700101_000000"
  probe _ := .error .noClips
  engine _ disk := (.crashesAtStart, disk)

/-- Asks for exports inside of a film. -/
def exportsInFilm : SettingsChoice := ⟨none, some "/film.mp4/x", none⟩

/-- No file can be read under the path of the settings, and the call fails. But a directory that it
made leads the path to a file, and what is loaded is no longer what it was. -/
theorem failed_call_lets_settings_appear :
    (∀ text, detour.disk.readText "/nowhere/../cfg/settings.json" ≠ .ok text) ∧
      ∃ after,
        (changeSettings "/nowhere/../cfg" exportsInFilm :
            ExceptT Error (StateM Session) Unit).run.run detour =
          (.error (.files .notDirectory), after) ∧
        loaded "/nowhere/../cfg/settings.json" "/nowhere/../cfg" detour =
          ⟨"/nowhere/../cfg/_projects", "/nowhere/../cfg", none⟩ ∧
        loaded "/nowhere/../cfg/settings.json" "/nowhere/../cfg" after =
          ⟨"/nowhere/../cfg/_projects", "/nowhere/../cfg", some "/opt/ffmpeg"⟩ := by
  constructor
  · intro text reads
    cases reads
  have fails : ((changeSettings "/nowhere/../cfg" exportsInFilm :
      ExceptT Error (StateM Session) Unit).run.run detour).1 = .error (.files .notDirectory) := by
    decide +kernel
  have finds : loaded "/nowhere/../cfg/settings.json" "/nowhere/../cfg"
      ((changeSettings "/nowhere/../cfg" exportsInFilm :
        ExceptT Error (StateM Session) Unit).run.run detour).2 =
        ⟨"/nowhere/../cfg/_projects", "/nowhere/../cfg", some "/opt/ffmpeg"⟩ := by
    decide +kernel
  rcases ran : (changeSettings "/nowhere/../cfg" exportsInFilm :
    ExceptT Error (StateM Session) Unit).run.run detour with ⟨outcome, after⟩
  rw [ran] at fails finds
  exact ⟨after, congrArg (·, after) fails, by decide +kernel, finds⟩

end Montage.CommandLine
