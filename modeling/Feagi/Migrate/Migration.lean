import Feagi.Migrate.Session

/-!
# Dry runs and the migration log

A dry run sends nothing but `GET` requests. Outside one, `migrate_issue` logs whether a request
creating the destination issue passed: closing the new issue, fetching the source comments and
posting them are best effort, and a `null` comment author raises after the creation, before any
entry is logged.
-/

namespace Feagi.Migrate

/-- The repository a request names. -/
def Request.repo : Request → String
  | .listIssues repo .. | .listComments repo .. | .listLabels repo .. | .createIssue repo ..
  | .closeIssue repo .. | .createComment repo .. | .createLabel repo .. => repo

namespace IssueMigrator

/-- The requests of a migration: listing the source repository's issues and an issue's
comments, listing the destination's labels, and writing to the destination. -/
def Migrates (r : Request) : Prop :=
  (∃ page, r = .listIssues sourceRepo "all" page perPage) ∨
    (∃ issueNumber page, r = .listComments sourceRepo issueNumber page perPage) ∨
    r = .listLabels destRepo perPage ∨ (r.method ≠ .GET ∧ r.repo = destRepo)

/-- The requests a migrator whose dry-run flag is `dryRun` may send. -/
def Allowed (dryRun : Bool) (r : Request) : Prop :=
  Migrates r ∧ (dryRun = true → r.method = .GET)

theorem Allowed.of_write {dryRun : Bool} {r : Request} (live : dryRun = false)
    (write : r.method ≠ .GET) (repo : r.repo = destRepo) : Allowed dryRun r :=
  ⟨.inr (.inr (.inr ⟨write, repo⟩)), fun dry => absurd (live.symm.trans dry) Bool.false_ne_true⟩

/-- A passed attempt of a request creating an issue in the destination repository. -/
def IssueCreated (attempts : List (Request × Bool)) : Prop :=
  ∃ title body labels, (Request.createIssue destRepo title body labels, true) ∈ attempts

def NotCreation (r : Request) : Prop :=
  ∀ title body labels, r ≠ .createIssue destRepo title body labels

theorem issueCreated_append {a b : List (Request × Bool)} :
    IssueCreated (a ++ b) ↔ IssueCreated a ∨ IssueCreated b := by
  simp only [IssueCreated, List.mem_append]
  constructor
  · rintro ⟨t, b, l, m | m⟩
    exacts [.inl ⟨t, b, l, m⟩, .inr ⟨t, b, l, m⟩]
  · rintro (⟨t, b, l, m⟩ | ⟨t, b, l, m⟩)
    exacts [⟨t, b, l, .inl m⟩, ⟨t, b, l, .inr m⟩]

theorem not_issueCreated {attempts : List (Request × Bool)}
    (other : ∀ a ∈ attempts, NotCreation a.1) : ¬IssueCreated attempts :=
  fun ⟨t, b, l, m⟩ => other _ m t b l rfl

/-- How `migrate_issue` of `issue`, having sent `attempts`, left the migrator that was `self`:
one entry and one counter when it returned, `success` exactly when it returned `True`, and
nothing but the session when it raised or is still paging comments. -/
def Logs (issue : Issue) (self : IssueMigrator) (attempts : List (Request × Bool)) : Ends Bool → Prop
  | .returns true after => ∃ destIssue destUrl, after = { self with
      session := self.session ++ attempts
      migratedCount := self.migratedCount + 1
      migrationLog := self.migrationLog ++
        [.success issue.number issue.htmlUrl destIssue destUrl issue.title] }
  | .returns false after => self.dryRun = false ∧ after = { self with
      session := self.session ++ attempts
      failedCount := self.failedCount + 1
      migrationLog := self.migrationLog ++ [.failed issue.number issue.title "Failed to create issue"] }
  | .raises _ after | .running after => after = { self with session := self.session ++ attempts }

/-- What the end of `migrate_issue` says of `attempts`: it returned `True` exactly when a request
creating the destination issue passed, and raised `AttributeError` only after one did. -/
def ReportsCreation (attempts : List (Request × Bool)) : Ends Bool → Prop
  | .returns migrated _ => migrated = true ↔ IssueCreated attempts
  | .raises error _ => error = .attributeError → IssueCreated attempts
  | .running _ => True

def LogsCreation (issue : Issue) (self : IssueMigrator) (result : Ends Bool) : Prop :=
  ∃ attempts, Logs issue self attempts result ∧ ReportsCreation attempts result

theorem Logs.grows {issue : Issue} {self : IssueMigrator} {attempts : List (Request × Bool)}
    {result : Ends Bool} (h : Logs issue self attempts result) :
    result.state.dryRun = self.dryRun ∧ result.state.session = self.session ++ attempts := by
  rcases result with ⟨_ | _, after⟩ | ⟨_, after⟩ | after
  · obtain ⟨-, rfl⟩ := h
    exact ⟨rfl, rfl⟩
  · obtain ⟨_, _, rfl⟩ := h
    exact ⟨rfl, rfl⟩
  all_goals subst h; exact ⟨rfl, rfl⟩

variable (env : Env)

/-! ## The steps of `migrate_issue` -/

theorem sendsOnly_postComment (issueNumber : Nat) (comment : Comment) (self : IssueMigrator) :
    SendsOnly (fun r => self.dryRun = false ∧ ∃ body, r = .createComment destRepo issueNumber body)
      self (postComment env issueNumber comment self).state := by
  unfold postComment
  split
  · exact .refl _ self
  next _ author _ =>
    cases dry : self.dryRun
    · refine SendsOnly.mono
        (P := (· = .createComment destRepo issueNumber (commentWithAttr comment author))) ?_
        fun r e => ⟨rfl, _, e⟩
      exact (calls_createComment env _ _ _ self).1.andThen fun _ s _ => .refl _ s
    · rw [createComment_of_dryRun env dry]
      exact .refl _ self

theorem migrateIssue_spec (fuel : Nat) (issue : Issue) (self : IssueMigrator) :
    ∃ attempts, (∀ a ∈ attempts, Allowed self.dryRun a.1) ∧
      Logs issue self attempts (self.migrateIssue env fuel issue) ∧
      (self.dryRun = false → ReportsCreation attempts (self.migrateIssue env fuel issue)) := by
  unfold migrateIssue
  dsimp only
  rw [ite_ensureLabelsExist]
  obtain ⟨⟨a₁, e₁, p₁⟩, r₁⟩ := (calls_ensureLabelsExist env destRepo (issue.labels.map (·.name))
    self).mono fun r e => show Allowed self.dryRun r ∧ NotCreation r by
      rcases e with rfl | ⟨live, name, rfl⟩
      · exact ⟨⟨.inr (.inr (.inl rfl)), fun _ => rfl⟩, nofun⟩
      · exact ⟨.of_write live nofun rfl, nofun⟩
  generalize self.ensureLabelsExist env destRepo _ = labelled at e₁ r₁ ⊢
  have allowed₁ : ∀ a ∈ a₁, Allowed self.dryRun a.1 := fun a m => (p₁ a m).1
  cases labelled <;> simp only [Ends.state_returns, Ends.state_raises, Ends.state_running,
    Ends.returns_andThen, Ends.raises_andThen, Ends.running_andThen] at e₁ ⊢ <;> subst e₁
  case raises error =>
    exact ⟨a₁, allowed₁, rfl, fun _ isAttribute => absurd (r₁ error rfl) (by rw [isAttribute]; nofun)⟩
  case running => exact ⟨a₁, allowed₁, rfl, fun _ => trivial⟩
  obtain ⟨a₂, e₂, p₂, v₂, r₂⟩ := createIssue_spec env destRepo issue.title
    (issue.body.getD "" ++ migrationNote issue.number issue.htmlUrl issue.createdAt)
    (issue.labels.map (·.name)) issue.state { self with session := self.session ++ a₁ }
  have allowed₂ : ∀ a ∈ a₁ ++ a₂, Allowed self.dryRun a.1 := by
    refine List.forall_mem_append.mpr ⟨allowed₁, fun a m => ?_⟩
    obtain ⟨live, e | ⟨n, e⟩⟩ := p₂ a m <;> rw [e]
    exacts [.of_write live nofun rfl, .of_write live nofun rfl]
  generalize IssueMigrator.createIssue env destRepo _ _ _ _ _ = creation at e₂ v₂ r₂ ⊢
  cases creation <;> simp only [Ends.state_returns, Ends.state_raises, Ends.state_running,
    Ends.returns_andThen, Ends.raises_andThen, Ends.running_andThen, Ends.value?_returns] at e₂ v₂ ⊢ <;>
    subst e₂
  case raises error =>
    exact ⟨a₁ ++ a₂, allowed₂, by simp [Logs],
      fun _ isAttribute => absurd (r₂ error rfl) (by rw [isAttribute]; nofun)⟩
  case running => exact ⟨a₁ ++ a₂, allowed₂, by simp [Logs], fun _ => trivial⟩
  rename_i response
  rcases response with _ | created
  · obtain ⟨wet, refused⟩ : ¬self.dryRun = true ∧ _ := by simpa using v₂ none rfl
    refine ⟨a₁ ++ a₂, allowed₂, by simpa [Logs] using wet, fun _ => ?_⟩
    simp only [ReportsCreation, Bool.false_eq_true, false_iff, issueCreated_append, not_or]
    refine ⟨not_issueCreated fun a m => (p₁ a m).2, fun ⟨t, b, l, m⟩ => refused ?_⟩
    obtain ⟨-, e | ⟨n, e⟩⟩ := p₂ _ m
    · cases e
      exact m
    · cases e
  have opened : self.dryRun = false → IssueCreated (a₁ ++ a₂) := fun live =>
    issueCreated_append.mpr (.inr ⟨_, _, _, by simpa [live] using v₂ _ rfl⟩)
  dsimp only
  obtain ⟨⟨a₃, e₃, p₃⟩, -⟩ : Calls (fun r => ∃ page, r = .listComments sourceRepo issue.number page perPage)
      _ (IssueMigrator.getIssueComments env fuel sourceRepo issue.number _) :=
    calls_getIssueCommentsLoop env sourceRepo issue.number fuel 1 [] _
  have allowed₃ : ∀ a ∈ a₁ ++ a₂ ++ a₃, Allowed self.dryRun a.1 := by
    refine List.forall_mem_append.mpr ⟨allowed₂, fun a m => ?_⟩
    obtain ⟨page, e⟩ := p₃ a m
    rw [e]
    exact ⟨.inr (.inl ⟨_, page, rfl⟩), fun _ => rfl⟩
  generalize IssueMigrator.getIssueComments env fuel sourceRepo issue.number _ = fetched at e₃ ⊢
  cases fetched <;> simp only [Ends.state_returns, Ends.state_raises, Ends.state_running,
    Ends.returns_andThen, Ends.raises_andThen, Ends.running_andThen] at e₃ ⊢ <;> subst e₃
  case raises =>
    exact ⟨_, allowed₃, by simp [Logs], fun live _ => issueCreated_append.mpr (.inl (opened live))⟩
  case running => exact ⟨_, allowed₃, by simp [Logs], fun _ => trivial⟩
  rename_i comments
  obtain ⟨a₄, e₄, p₄⟩ := SendsOnly.forEach (P := fun r => Allowed self.dryRun r) self.dryRun
    (fun comment s flag => (sendsOnly_postComment env created.number comment s).mono
      fun r ⟨live, body, e⟩ => by rw [e]; exact .of_write (flag.symm.trans live) nofun rfl)
    comments { self with session := self.session ++ a₁ ++ a₂ ++ a₃ } rfl
  have allowed₄ := List.forall_mem_append.mpr ⟨allowed₃, p₄⟩
  have created₄ : self.dryRun = false → IssueCreated (a₁ ++ a₂ ++ a₃ ++ a₄) := fun live =>
    issueCreated_append.mpr (.inl (issueCreated_append.mpr (.inl (opened live))))
  generalize IssueMigrator.forEach (postComment env created.number) comments
    { self with session := self.session ++ a₁ ++ a₂ ++ a₃ } = posted at e₄ ⊢
  cases posted <;> simp only [Ends.state_returns, Ends.state_raises, Ends.state_running,
    Ends.returns_andThen, Ends.raises_andThen, Ends.running_andThen] at e₄ ⊢ <;> subst e₄
  · refine ⟨_, allowed₄, ?_, fun live => ?_⟩
    · simp only [Logs]
      exact ⟨created.number, created.htmlUrl, by simp⟩
    · simp only [ReportsCreation, true_iff]
      exact created₄ live
  · exact ⟨_, allowed₄, by simp [Logs], fun live _ => created₄ live⟩
  · exact ⟨_, allowed₄, by simp [Logs], fun _ => trivial⟩

theorem grows_migrateIssue (fuel : Nat) (issue : Issue) (self : IssueMigrator) :
    Grows (Allowed self.dryRun) self (self.migrateIssue env fuel issue).state := by
  obtain ⟨attempts, allowed, logs, -⟩ := migrateIssue_spec env fuel issue self
  obtain ⟨dry, session⟩ := logs.grows
  exact ⟨dry, attempts, session, allowed⟩

theorem grows_migrateAllIssues (fuel : Nat) (self : IssueMigrator) :
    Grows (Allowed self.dryRun) self (self.migrateAllIssues env fuel).state := by
  have fetched : Grows (Allowed self.dryRun) self (self.getAllIssues env fuel sourceRepo "all").state :=
    (calls_getAllIssuesLoop env sourceRepo "all" fuel 1 [] self).1.grows.mono fun r ⟨page, e⟩ => by
      rw [e]
      exact ⟨.inl ⟨page, rfl⟩, fun _ => rfl⟩
  unfold migrateAllIssues
  refine fetched.andThen fun issues s returned => ?_
  have kept := fetched.1
  rw [returned] at kept
  split_ifs
  · exact .refl _ s
  · exact Grows.forEach self.dryRun (fun issue s' flag => (grows_migrateIssue env fuel issue s').mono
      fun r allowed => by rwa [flag] at allowed) issues s kept

/-! ## Dry runs -/

theorem migrateAllIssues_dryRun_only_gets (fuel : Nat) :
    ∀ a ∈ ((IssueMigrator.init true).migrateAllIssues env fuel).state.session, a.1.method = .GET := by
  obtain ⟨-, attempts, session, allowed⟩ := grows_migrateAllIssues env fuel (init true)
  intro a member
  rw [session] at member
  exact (allowed a (by simpa [init] using member)).2 rfl

/-- The API serves one labelled, commented issue and answers every other request. -/
def oneIssue : Network := fun _ request =>
  match request with
  | .listIssues .. => .ok [⟨7, "Broken build", none, "closed", [⟨"bug"⟩], "", "", false⟩]
  | .listComments .. => .ok [⟨.value "Seen on main", .value ⟨.value "octocat"⟩, .value ""⟩]
  | .listLabels .. => .ok []
  | .createIssue .. => .ok ⟨1, ""⟩
  | .closeIssue .. | .createComment .. | .createLabel .. => .ok ()

theorem migrateAllIssues_dryRun_lists_labels :
    (Request.listLabels destRepo perPage, true) ∈
        ((IssueMigrator.init true).migrateAllIssues ⟨oneIssue, fun _ => 0⟩ 1).state.session ∧
      (Request.listLabels destRepo perPage).method = .GET :=
  ⟨by decide, migrateAllIssues_dryRun_only_gets ⟨oneIssue, fun _ => 0⟩ 1
    (.listLabels destRepo perPage, true) (by decide)⟩

/-! ## Outside a dry run -/

/-- The API answers every request but refuses to close issues. -/
def closeRefused : Network := fun _ request =>
  match request with
  | .createIssue .. => .ok ⟨1, "https://github.com/feagi/feagi-core/issues/1"⟩
  | .closeIssue .. => .httpError 404 "Not Found"
  | .listIssues .. => .ok []
  | .listComments .. => .ok []
  | .listLabels .. => .ok []
  | .createComment .. | .createLabel .. => .ok ()

def closedIssue : Issue :=
  ⟨7, "Broken build", none, "closed", [], "", "https://github.com/feagi/feagi-data-processing/issues/7",
    false⟩

end IssueMigrator
end Feagi.Migrate
