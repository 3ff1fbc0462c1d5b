import Timetable.Proofs.Cron.User
import Timetable.Proofs.Jobs.Entry
import Timetable.Proofs.Scheduler

/-!
The users of the jobs.

Settings name users in three places: each job may have one, the scheduler of a
crontab with a user column has one, and one may be given for the current user.
Entries are given their users in steps. The step that looks for the current user
in a column does not ask the settings for the name, so the name that is given for
the current user counts for a job that asks for it, but not for a scheduler that
does.
-/

set_option autoImplicit false

namespace Timetable

open Text

/-! ## What is configured -/

/-- Whether the user that a scheduler is given stands for the current one. -/
def Scheduler.isOwn (user : String) : Bool :=
  user == "" || user == anonymousUser || user == Entry.currentUser

/-- Whether a scheduler has a user column for the current user. -/
def Scheduler.asksForOwn : Scheduler → Bool
  | crontab _ (some user) => isOwn user
  | _ => false

namespace Settings

/-- The name of the current user, as the settings or else the environment have it. -/
def ownName (s : Settings) (h : Host) : String :=
  s.crontab.user.getD (Store.currentUser h)

/-- The user that a job is configured to run as: its own one, or else that of the scheduler, where
the current user has the name of the settings. -/
def configuredUser (s : Settings) (h : Host) (scheduler : Scheduler) (j : Job) : String :=
  if j.user = Entry.currentUser then s.ownName h
  else if j.user ≠ "" then j.user
  else
    match scheduler with
    | .crontab _ (some user) => if Scheduler.isOwn user then s.ownName h else user
    | _ => ""

end Settings

/-! ## What is given -/

/-- The user that an entry gets from the column of a scheduler. -/
def Scheduler.columnUser (scheduler : Scheduler) (user : String) : String :=
  match scheduler with
  | crontab _ (some column) =>
    if user ≠ "" then user else if column = anonymousUser then Entry.currentUser else column
  | _ => user

/-- A user that is given stays. -/
theorem Scheduler.columnUser_of_ne {scheduler : Scheduler} {user : String} (h : user ≠ "") :
    scheduler.columnUser user = user := by
  unfold columnUser
  split
  · rw [if_pos h]
  · rfl

/-- The user of an entry when the current one has been replaced by its name. -/
def namedUser (h : Host) (user : String) : String :=
  if user = Entry.currentUser then Store.currentUser h else user

/-- A column gets the name of the current user for a dash as well as for a star. -/
theorem namedUser_column {h : Host} {column : String} (hne : column ≠ "") :
    namedUser h (if column = Scheduler.anonymousUser then Entry.currentUser else column) =
      if Scheduler.isOwn column = true then Store.currentUser h else column := by
  unfold namedUser Scheduler.isOwn
  by_cases hdash : column = Scheduler.anonymousUser
  · simp [hdash]
  · by_cases hown : column = Entry.currentUser
    · simp [hown]
    · simp [hdash, hown, hne]

/-- What the scheduler's user column does, told entry by entry. -/
theorem withColumnUser_eq (scheduler : Scheduler) (es : List Entry) :
    Settings.withColumnUser scheduler es =
      es.map fun e => e.withUser (scheduler.columnUser e.user) := by
  unfold Settings.withColumnUser Scheduler.columnUser
  split
  · refine List.map_congr_left fun e _ => ?_
    unfold Entry.hasUser Entry.withUser
    by_cases hempty : e.user = ""
    · simp [hempty]
    · simp [hempty]
  · simp [Entry.withUser]

/-- What the store does with the current user, told entry by entry. -/
theorem entries_ofEntries (h : Host) (es : List Entry) :
    (Store.ofEntries h es).entries = es.map fun e => e.withUser (namedUser h e.user) := by
  refine List.map_congr_left fun e _ => ?_
  unfold Entry.needsUser Entry.withUser namedUser
  by_cases hown : e.user = Entry.currentUser
  · simp [hown]
  · simp [hown]

namespace Settings

variable {s : Settings} {h : Host} {scheduler : Scheduler}

/-- **The store of a cron scheduler.** It has the given entries, with the users of the column and
then with the name of the current user. -/
theorem store_eq_ok (hparse : Scheduler.parse s.scheduler = .ok scheduler)
    (hcron : scheduler.isCron = true) (es : List Entry) :
    ∃ store, s.store h es = .ok store ∧
      store.entries = es.map fun e => e.withUser (namedUser h (scheduler.columnUser e.user)) := by
  have hentries : (Store.ofEntries h (withColumnUser scheduler es)).entries =
      es.map fun e => e.withUser (namedUser h (scheduler.columnUser e.user)) := by
    rw [entries_ofEntries, withColumnUser_eq, List.map_map]
    rfl
  unfold Settings.store
  rw [hparse]
  cases scheduler with
  | crond program => exact ⟨_, rfl, hentries⟩
  | crontab file user => exact ⟨_, rfl, hentries⟩
  | systemDefault | launchd | systemd | windows => cases hcron

/-- A store is made for a cron scheduler only. -/
theorem exists_isCron_of_store {es : List Entry} {store : Store}
    (hstore : s.store h es = .ok store) :
    ∃ scheduler, Scheduler.parse s.scheduler = .ok scheduler ∧ scheduler.isCron = true := by
  unfold Settings.store at hstore
  split at hstore
  · cases hstore
  · next scheduler hparse =>
    refine ⟨scheduler, hparse, ?_⟩
    split at hstore
    · rfl
    · rfl
    · cases hstore

/-- **The user that is given.** It is the configured one, except for a job without a user where the
scheduler has a column for the current one: there the environment decides alone. -/
theorem namedUser_eq (hparse : Scheduler.parse s.scheduler = .ok scheduler)
    (hname : ∀ n ∈ s.crontab.user, n ≠ "" ∧ n ≠ Entry.currentUser) (j : Job) (event : Event) :
    namedUser h (scheduler.columnUser (j.entry event s.crontab.user).user) =
      if j.user = "" ∧ scheduler.asksForOwn = true then Store.currentUser h
      else s.configuredUser h scheduler j := by
  have huser : (j.entry event s.crontab.user).user =
      if j.user = Entry.currentUser then s.crontab.user.getD j.user else j.user := by
    simp [Job.entry]
  have hnone : Entry.currentUser ≠ "" := by decide
  rw [huser]
  by_cases hown : j.user = Entry.currentUser
  · rw [if_pos hown, if_neg fun h => hnone (hown ▸ h.1), hown]
    unfold configuredUser ownName
    rw [if_pos hown]
    cases hcrontab : s.crontab.user with
    | none => rw [Option.getD_none, Option.getD_none, Scheduler.columnUser_of_ne hnone, namedUser,
        if_pos rfl]
    | some n =>
      obtain ⟨hempty, hcurrent⟩ := hname n hcrontab
      rw [Option.getD_some, Option.getD_some, Scheduler.columnUser_of_ne hempty, namedUser,
        if_neg hcurrent]
  rw [if_neg hown]
  by_cases hempty : j.user = ""
  · have hempty' : ¬ j.user ≠ "" := not_not.mpr hempty
    have hblank : namedUser h "" = "" := if_neg hnone.symm
    unfold configuredUser
    rw [if_neg hown, if_neg hempty', hempty]
    cases scheduler with
    | crontab file user =>
      cases user with
      | none => exact hblank
      | some column =>
        -- what stands for the user of a column is never empty
        have hne : column ≠ "" := (Scheduler.parse_isPlain hparse).1.1
        have hcolumn := namedUser_column (h := h) hne
        by_cases hasks : Scheduler.isOwn column = true
        · simpa [Scheduler.columnUser, Scheduler.asksForOwn, hasks] using hcolumn
        · simpa [Scheduler.columnUser, Scheduler.asksForOwn, hasks] using hcolumn
    | crond | systemDefault | launchd | systemd | windows => exact hblank
  · rw [if_neg fun h => hempty h.1, Scheduler.columnUser_of_ne hempty, namedUser, if_neg hown]
    unfold configuredUser
    rw [if_neg hown, if_pos hempty]

/-! ## Whom it fails -/

/-- A job without a user where the scheduler asks for the current one, and the settings have another
name for that one than the environment. -/
def Misses (s : Settings) (h : Host) (scheduler : Scheduler) (j : Job) : Prop :=
  j.user = "" ∧ scheduler.asksForOwn = true ∧ s.ownName h ≠ Store.currentUser h

instance (j : Job) : Decidable (s.Misses h scheduler j) :=
  inferInstanceAs (Decidable (_ ∧ _ ∧ _))

/-- An entry that a job has in the store at a schedule. Its user is the configured one, unless the
job is missed, and then it is the one of the environment. -/
structure IsStored (s : Settings) (h : Host) (scheduler : Scheduler) (r : Job × String)
    (e : Entry) : Prop where
  scheduled : ∃ event, Event.parse r.2 = .ok event ∧ e = (r.1.entry event none).withUser e.user
  configured_iff : e.user = s.configuredUser h scheduler r.1 ↔ ¬ s.Misses h scheduler r.1
  missed : s.Misses h scheduler r.1 → e.user = Store.currentUser h

/-- A job without a user whose scheduler asks for the current one is configured to run under its
name. -/
theorem configuredUser_eq_ownName {j : Job} (hempty : j.user = "")
    (hasks : scheduler.asksForOwn = true) : s.configuredUser h scheduler j = s.ownName h := by
  unfold Scheduler.asksForOwn at hasks
  unfold configuredUser
  rw [hempty, if_neg (by decide), if_neg (by decide)]
  split at hasks
  · exact if_pos hasks
  · cases hasks

/-- Each schedule of a job is stored with the user that the steps from settings to store give. -/
theorem isStored_of_scheduled (hparse : Scheduler.parse s.scheduler = .ok scheduler)
    (hname : ∀ n ∈ s.crontab.user, n ≠ "" ∧ n ≠ Entry.currentUser) {r : Job × String} {e : Entry}
    (he : r.1.scheduled s.crontab.user r.2 = .ok e) :
    s.IsStored h scheduler r (e.withUser (namedUser h (scheduler.columnUser e.user))) := by
  obtain ⟨event, hevent, rfl⟩ := Job.scheduled_eq_ok_iff.mp he
  have huser := namedUser_eq (h := h) hparse hname r.1 event
  refine ⟨⟨event, hevent, rfl⟩, ?_, fun hmissed => ?_⟩
  · change namedUser h _ = _ ↔ _
    rw [huser]
    -- the job is missed, or its user is the configured one
    by_cases hlate : r.1.user = "" ∧ scheduler.asksForOwn = true
    · obtain ⟨hempty, hasks⟩ := hlate
      rw [if_pos ⟨hempty, hasks⟩, configuredUser_eq_ownName hempty hasks]
      simp [Misses, hempty, hasks, eq_comm]
    · rw [if_neg hlate]
      exact iff_of_true rfl fun hmissed => hlate ⟨hmissed.1, hmissed.2.1⟩
  · change namedUser h _ = _
    rw [huser, if_pos ⟨hmissed.1, hmissed.2.1⟩]

/-- **The users of the jobs in the store.** With a cron scheduler there is a store exactly if all
schedules can be read. It has one entry for each schedule of each job, in order, and the user of the
entry is the configured one exactly if the job is not missed. -/
theorem jobStore_users (h : Host) (hparse : Scheduler.parse s.scheduler = .ok scheduler)
    (hcron : scheduler.isCron = true)
    (hname : ∀ n ∈ s.crontab.user, n ≠ "" ∧ n ≠ Entry.currentUser) :
    ((∃ store, s.jobStore h = .ok store) ↔ ∀ r ∈ s.runs, ∃ event, Event.parse r.2 = .ok event) ∧
      ∀ store, s.jobStore h = .ok store →
        List.Forall₂ (s.IsStored h scheduler) s.runs store.entries := by
  have hstores (es : List Entry) := store_eq_ok (h := h) hparse hcron es
  constructor
  -- a store is there exactly if all schedules are read, because the place is
  · have hscheduled : (∃ es, s.entries = .ok es) ↔
        ∀ r ∈ s.runs, ∃ event, Event.parse r.2 = .ok event := by
      rw [entries_eq, exists_mapM_eq_ok_iff]
      refine forall₂_congr fun r _ => ?_
      simp only [Job.scheduled_eq_ok_iff]
      constructor
      · rintro ⟨_, event, hevent, -⟩
        exact ⟨event, hevent⟩
      · rintro ⟨event, hevent⟩
        exact ⟨_, event, hevent, rfl⟩
    rw [← hscheduled]
    constructor
    · rintro ⟨store, hstore⟩
      obtain ⟨es, hes, -⟩ := bind_eq_ok.mp hstore
      exact ⟨es, hes⟩
    · rintro ⟨es, hes⟩
      obtain ⟨store, hstore, -⟩ := hstores es
      exact ⟨store, bind_eq_ok.mpr ⟨es, hes, hstore⟩⟩
  · intro store hstore
    obtain ⟨es, hes, hstore⟩ := bind_eq_ok.mp hstore
    obtain ⟨store', hstore', hentries⟩ := hstores es
    obtain rfl := Except.ok.inj (hstore.symm.trans hstore')
    rw [entries_eq] at hes
    rw [hentries, List.forall₂_map_right_iff]
    exact (mapM_eq_ok_iff.mp hes).imp fun r e he => isStored_of_scheduled hparse hname he

/-- A job that asks for the current user gets the name of the settings, and one that asks for none
the user of the column. -/
theorem jobStore_users_named :
    let j : Job :=
      { configFile := "c", profile := "home", command := "backup", user := "*",
        schedules := ["*:5"] }
    let j' : Job :=
      { configFile := "c", profile := "work", command := "backup", schedules := ["*:10"] }
    let s : Settings :=
      { scheduler := "crontab:root:tab", crontab := { user := some "backup" }, jobs := [j, j'] }
    let h : Host := { environment := [("USER", "alice")] }
    ∃ store, s.jobStore h = .ok store ∧ store.entries.map (·.user) = ["backup", "root"] := by
  intro j j' s h
  have hparse : Scheduler.parse s.scheduler = .ok (.crontab "tab" (some "root")) := by decide
  obtain ⟨hok, husers⟩ := jobStore_users h hparse (by decide) (by decide)
  have hread : ∀ r ∈ s.runs, (Event.parse r.2).isOk = true := by decide
  obtain ⟨store, hstore⟩ := hok.mpr fun r hr => exists_eq_ok (hread r hr)
  have hruns : s.runs = [(j, "*:5"), (j', "*:10")] := by decide
  have hall := husers store hstore
  rw [hruns] at hall
  simp only [List.forall₂_cons_left_iff, List.forall₂_nil_left_iff] at hall
  obtain ⟨e, _, he, ⟨e', _, he', rfl, rfl⟩, hentries⟩ := hall
  refine ⟨store, hstore, ?_⟩
  have huser := he.configured_iff.mpr (by decide)
  have huser' := he'.configured_iff.mpr (by decide)
  have hnames : [s.configuredUser h (.crontab "tab" (some "root")) j,
      s.configuredUser h (.crontab "tab" (some "root")) j'] = ["backup", "root"] := by decide
  rw [hentries, List.map_cons, List.map_singleton, huser, huser', hnames]

/-- The column asks for the current user, and the name of the settings is not asked for. -/
theorem jobStore_users_missed :
    let j : Job :=
      { configFile := "c", profile := "home", command := "backup", schedules := ["*:5"] }
    let s : Settings :=
      { scheduler := "crontab:-:tab", crontab := { user := some "backup" }, jobs := [j] }
    let h : Host := { environment := [("USER", "alice")] }
    (s.jobStore h).map (·.entries.map (·.user)) = .ok ["alice"] ∧
      Scheduler.parse s.scheduler = .ok (.crontab "tab" (some "-")) ∧
      s.configuredUser h (.crontab "tab" (some "-")) j = "backup" := by
  decide

end Settings

end Timetable
