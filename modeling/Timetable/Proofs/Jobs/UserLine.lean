import Timetable.Proofs.Cron.Reloading
import Timetable.Proofs.Cron.UserColumn
import Timetable.Proofs.Jobs.User

/-!
Lines with users.

Where a file has a user column, an installation gives a name to every entry that has
none, and all entries are written with their names. The names come from the entries,
from what is configured for the column, and from the environment, and only the last
ones have been looked at before. So an entry gets a line with a user exactly if its
name can stand in a column. The star is no name: for an entry of the current user it
has been replaced, but where it is configured for the column it is given to the
entries and then left out of their lines.
-/

set_option autoImplicit false

namespace Timetable

open Text Cron OwnSection

/-! ## The form of a line -/

namespace Cron

/-- Five time fields with single blanks between them. -/
inductive IsFiveFields : List Char → Prop where
  | mk {f₁ f₂ f₃ f₄ f₅ : List Char} (h₁ : IsTimeField f₁) (h₂ : IsTimeField f₂)
      (h₃ : IsTimeField f₃) (h₄ : IsTimeField f₄) (h₅ : IsTimeField f₅) :
    IsFiveFields (f₁ ++ ' ' :: (f₂ ++ ' ' :: (f₃ ++ ' ' :: (f₄ ++ ' ' :: f₅))))

/-- The time fields of a reached event are five fields. -/
theorem isFiveFields_timeFields {e : Event} (he : e.Reached) :
    IsFiveFields (timeFields e).toList := by
  obtain ⟨f₁, f₂, f₃, f₄, f₅, ⟨h₁, h₂, h₃, h₄, h₅⟩, htime⟩ := exists_timeFields he
  rw [htime]
  exact .mk h₁ h₂ h₃ h₄ h₅

/-- Fields have no tab, so the first tab of a line is the one behind them. -/
theorem IsFiveFields.tab_notMem {s : List Char} (h : IsFiveFields s) : '\t' ∉ s := by
  obtain ⟨h₁, h₂, h₃, h₄, h₅⟩ := h
  have hfield {f : List Char} (hf : IsTimeField f) : '\t' ∉ f := hf.notMem (by decide)
  simp [hfield h₁, hfield h₂, hfield h₃, hfield h₄, hfield h₅]

/-- A line with a user: five time fields, a tab, a name, a tab and the command. -/
inductive IsUserLine (command : List Char) : List Char → Prop where
  | mk {time name : List Char} (htime : IsFiveFields time) (hname : IsWord name) :
    IsUserLine command (time ++ '\t' :: (name ++ '\t' :: (command ++ ['\n'])))

/-- A line with a user has two tabs, whatever the command is. -/
theorem IsUserLine.two_le_count {command l : List Char} (h : IsUserLine command l) :
    2 ≤ l.count '\t' := by
  obtain ⟨-, -⟩ := h
  simp only [List.count_append, List.count_cons_self]
  omega

end Cron

namespace Entry

/-- What is written for a user is a name and a tab exactly if the user can stand in a column. -/
theorem toList_userText_eq_iff {user : String} {name : List Char} (hname : IsWord name) :
    (userText user).toList = name ++ ['\t'] ↔ IsColumnName user ∧ user.toList = name := by
  constructor
  · intro h
    -- what is written has the tab, so the user is neither empty nor the current one
    have hwritten : ¬ (user = "" ∨ user = currentUser) := by
      rw [← userText_eq_empty_iff]
      intro hempty
      simp [hempty] at h
    obtain ⟨hempty, hcurrent⟩ := not_or.mp hwritten
    have htext : userText user = user ++ "\t" := by simp [userText, hempty, hcurrent]
    have hlist : user.toList = name := by simpa [htext] using h
    exact ⟨⟨hlist ▸ hname, hcurrent⟩, hlist⟩
  · rintro ⟨huser, rfl⟩
    simp [huser.userText_eq]

/-- **The line of an entry has a user** exactly if the user of the entry can stand in a column. -/
theorem isUserLine_line_iff {e : Entry} (he : e.event.Reached) :
    IsUserLine e.commandText e.line.toList ↔ IsColumnName e.user := by
  constructor
  · generalize hline : e.line.toList = l
    rintro (@⟨time, name, htime, hname⟩)
    rw [toList_line, toList_column] at hline
    -- the fields have no tab, so the first tab is the one behind them
    obtain ⟨-, hcolumn⟩ :=
      append_cons_inj_left (tab_notMem_timeFields e.event) htime.tab_notMem hline
    have htext : (userText e.user).toList ++ (e.commandText ++ ['\n']) =
        (name ++ ['\t']) ++ (e.commandText ++ ['\n']) := by
      simpa using hcolumn
    exact ((toList_userText_eq_iff hname).mp (List.append_cancel_right htext)).1
  · intro huser
    have hshape : e.line.toList = (timeFields e.event).toList ++
        '\t' :: (e.user.toList ++ '\t' :: (e.commandText ++ ['\n'])) := by
      simp [toList_line, toList_column, huser.userText_eq]
    rw [hshape]
    exact .mk (isFiveFields_timeFields he) huser.word

end Entry

/-! ## Names -/

namespace Store

variable {h h' : Host} {s : Store} {path : String} {t : List Char}

/-- The name of the one who runs the scheduler is a word. -/
theorem isWord_currentUser (h : Host) : IsWord (currentUser h).toList := by
  rw [currentUser]
  generalize ((h.valueOf? "USER").or (h.valueOf? "LOGNAME")).getD "" = name
  split
  · exact ⟨by decide, by decide⟩
  · next hname =>
    simp only [Bool.or_eq_true, not_or, Bool.not_eq_true] at hname
    exact ⟨by simpa using hname.1, fun c hc => by simpa using List.any_eq_false.mp hname.2 c hc⟩

/-- The name of the one who runs the scheduler can stand in a column, unless it is the star. -/
theorem isColumnName_currentUser_iff :
    Entry.IsColumnName (currentUser h) ↔ currentUser h ≠ Entry.currentUser :=
  ⟨fun hname => hname.notCurrent, fun hne => ⟨isWord_currentUser h, hne⟩⟩

/-- The name that an entry gets for a user column: what is configured for the column if the entry
has no user, or else its own one, with the current user replaced by a name. -/
def columnName (configured : Option String) (h : Host) (user : String) : String :=
  if user = "" then configured.getD (currentUser h) else namedUser h user

/-- A store of entries for a crontab in a file. -/
def ofFile (h : Host) (es : List Entry) (path : String) (configured : Option String) : Store :=
  { Store.ofEntries h es with file := some path, user := configured }

/-- **The names that are given** in a crontab with a user column. -/
theorem entries_fitted_ofFile (hcolumn : hasUserColumn t = true) (es : List Entry)
    (configured : Option String) :
    ((ofFile h es path configured).fitted h (.file path) t).entries =
      withUsers (fun e => columnName configured h e.user) es := by
  have hentries : (ofFile h es path configured).entries =
      es.map fun e => e.withUser (namedUser h e.user) := entries_ofEntries h es
  rw [entries_fitted, hentries, withUsers, withUsers, List.map_map]
  refine List.map_congr_left fun e _ => ?_
  -- an entry without a user gets the name; another one has it already
  by_cases hempty : e.user = ""
  · have hnamed : namedUser h "" = "" := if_neg (by decide)
    simp [Entry.withUser, fittedUser, hcolumn, Entry.hasUser, hnamed, columnName, hempty, userName,
      ofFile]
  · have hnamed : namedUser h e.user ≠ "" := by
      rw [namedUser]
      split
      · simpa using (isWord_currentUser h).ne_nil
      · exact hempty
    simp [Entry.withUser, fittedUser, Entry.hasUser, hnamed, columnName, hempty]

/-- **The lines in a crontab with a user column.** An installation that succeeds gives every entry
its name, and puts the lines of the entries at the end of the section. The line of an entry has a
user exactly if the name can stand in a column, and the name of the one who runs the scheduler can,
unless it is the star. -/
theorem install_user_lines {es : List Entry} (hes : ∀ e ∈ es, e.event.Reached)
    (configured : Option String) (ht : h.FileHolds path t) (hcolumn : hasUserColumn t = true)
    (hok : ((ofFile h es path configured).install h).2 = .ok h') :
    let named := withUsers (fun e => columnName configured h e.user) es
    ((ofFile h es path configured).install h).1.entries = named ∧
      h'.FileHolds path ({ ofText t with
        body := (Entry.removeAll named (ofText t).body).1 ++
          (named.map (·.line.toList)).flatten : OwnSection }.assemble) ∧
      (∀ e ∈ named, IsUserLine e.commandText e.line.toList ↔ Entry.IsColumnName e.user) ∧
      (Entry.IsColumnName (currentUser h) ↔ currentUser h ≠ Entry.currentUser) := by
  intro named
  obtain ⟨hstore, hfile⟩ := install_file_eq rfl ht hok
  have hentries : ((ofFile h es path configured).install h).1.entries = named := by
    rw [hstore]
    exact entries_fitted_ofFile hcolumn es configured
  refine ⟨hentries, ?_, fun e he => ?_, isColumnName_currentUser_iff⟩
  · rw [hentries, update_eq] at hfile
    rw [← Entry.toList_linesOf]
    exact hfile
  · obtain ⟨e', he', rfl⟩ := List.mem_map.mp he
    exact Entry.isUserLine_line_iff (hes e' he')

/-- A crontab with a user column. -/
def systemTab : List Char :=
  "17 * * * *\troot\trun-parts\n".toList

/-- A host on which somebody has that crontab. -/
def systemHost : Host :=
  Host.withText { environment := [("USER", "alice")] } "tab" systemTab

/-- The system's crontab is there, -/
theorem fileHolds_systemHost : systemHost.FileHolds "tab" systemTab :=
  Host.FileHolds.withText (.free (Host.place_eq_free (by decide +kernel))) systemTab

/-- it has a user column, -/
theorem hasUserColumn_systemTab : hasUserColumn systemTab = true := by
  decide

/-- and it is taken. -/
theorem isAccepted_systemTab : IsAccepted systemTab :=
  ⟨by decide, by decide⟩

/-- An entry without a user gets the configured name, and one of the current user the name from the
environment. -/
theorem install_user_lines_named :
    let e : Entry :=
      { configFile := "c", profile := "home", command := "backup", event := Keyword.daily.event,
        commandLine := "resticprofile --config c run-schedule backup@home" }
    let e' : Entry := { e with profile := "work", user := "*" }
    let s := ofFile systemHost [e, e'] "tab" (some "ops")
    (∃ h', (s.install systemHost).2 = .ok h') ∧
      (s.install systemHost).1.entries = [e.withUser "ops", e'.withUser "alice"] ∧
      ∀ x ∈ (s.install systemHost).1.entries, IsUserLine x.commandText x.line.toList := by
  intro e e' s
  have hes : ∀ x ∈ [e, e'], x.event.Reached := by
    simp only [List.forall_mem_cons, List.not_mem_nil, false_implies, implies_true, and_true]
    exact ⟨Keyword.daily.event_reached, Keyword.daily.event_reached⟩
  have hlength : 4 * (s.installed systemHost "tab" systemTab).length < StoreError.sizeLimit := by
    rw [Store.installed, update_eq, fresh_eq]
    decide +kernel
  obtain ⟨h', hok⟩ := exists_install_file rfl fileHolds_systemHost isAccepted_systemTab hlength
  obtain ⟨hentries, -, hlines, -⟩ :=
    install_user_lines hes (some "ops") fileHolds_systemHost hasUserColumn_systemTab hok
  have hnamed : (s.install systemHost).1.entries = [e.withUser "ops", e'.withUser "alice"] := by
    rw [hentries]
    decide
  have hnames : ∀ x ∈ [e.withUser "ops", e'.withUser "alice"], Entry.IsColumnName x.user := by
    decide
  refine ⟨⟨h', hok⟩, hnamed, fun x hx => ?_⟩
  exact (hlines x (hentries ▸ hx)).mpr (hnames x (hnamed ▸ hx))

/-- The star that is configured for the column is left out, and the crontab has a line without a
user. -/
theorem install_user_lines_star :
    let e : Entry :=
      { configFile := "c", profile := "home", command := "backup", event := Keyword.daily.event,
        commandLine := "resticprofile --config c run-schedule backup@home" }
    let s := ofFile systemHost [e] "tab" (some "*")
    let line := "00 00 * * *\tresticprofile --config c run-schedule backup@home\n".toList
    hasUserColumn systemTab = true ∧
      ∃ h', (s.install systemHost).2 = .ok h' ∧
        h'.FileHolds "tab" (OwnSection.assemble ⟨systemTab ++ ['\n'], line, []⟩) ∧
        ∀ command, ¬ IsUserLine command line := by
  intro e s line
  have hlength : 4 * (s.installed systemHost "tab" systemTab).length < StoreError.sizeLimit := by
    rw [Store.installed, update_eq, fresh_eq]
    decide +kernel
  obtain ⟨h', hok⟩ := exists_install_file rfl fileHolds_systemHost isAccepted_systemTab hlength
  obtain ⟨hstore, hfile⟩ := install_file_eq rfl fileHolds_systemHost hok
  have hentries : (s.install systemHost).1.entries = [e.withUser "*"] := by
    rw [hstore, entries_fitted_ofFile hasUserColumn_systemTab]
    decide
  have hcrontab : (update [e.withUser "*"] true systemTab).1 =
      OwnSection.assemble ⟨systemTab ++ ['\n'], line, []⟩ := by
    decide +kernel
  refine ⟨hasUserColumn_systemTab, h', hok, ?_, fun command hline => ?_⟩
  · rwa [hentries, hcrontab] at hfile
  · exact absurd hline.two_le_count (by decide)

end Store

end Timetable
