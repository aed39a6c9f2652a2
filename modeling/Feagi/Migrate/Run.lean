import Feagi.Migrate.Migration

/-!
# The retry protocol and the bookkeeping of a whole run

`_make_request` sends its request again after every rate-limited reply, until Python's
recursion limit. `migrate_all_issues` migrates the fetched issues in order, so its log is one
entry per issue it finished migrating, and every fetched issue when it returns.
-/

namespace Feagi.Migrate

/-- The `"source_issue"` of a log entry. -/
def LogEntry.sourceIssue : LogEntry → Nat
  | .success sourceIssue .. => sourceIssue
  | .failed sourceIssue .. => sourceIssue

namespace IssueMigrator

/-! ## `_make_request` -/

theorem makeRequest_retries (net : Network) (request : Request) (depth : Nat) (self : IssueMigrator) :
    ∃ retries ≤ depth,
      (∀ i < retries, (net (self.session.length + i) request).rateLimited = true) ∧
      (((net (self.session.length + retries) request).rateLimited = false ∧
          self.makeRequest net request depth =
            .returns (net (self.session.length + retries) request).response { self with
              session := self.session ++ List.replicate retries (request, false) ++
                [(request, (net (self.session.length + retries) request).passed)] }) ∨
        (retries = depth ∧ (net (self.session.length + retries) request).rateLimited = true ∧
          self.makeRequest net request depth = .raises .recursionError
            { self with session := self.session ++ List.replicate (depth + 1) (request, false) })) := by
  cases limited : (net self.session.length request).rateLimited with
  | false =>
    refine ⟨0, Nat.zero_le _, nofun, .inl ⟨limited, ?_⟩⟩
    rw [makeRequest_of_not_rateLimited net limited]
    simp [send]
  | true =>
    cases depth with
    | zero =>
      refine ⟨0, le_rfl, nofun, .inr ⟨rfl, limited, ?_⟩⟩
      rw [makeRequest_zero_of_rateLimited net limited]
      rfl
    | succ depth =>
      obtain ⟨retries, bound, before, last⟩ := makeRequest_retries net request depth
        (self.send request false)
      have length : (self.send request false).session.length = self.session.length + 1 := by
        simp [send]
      have shift : ∀ i, self.session.length + 1 + i = self.session.length + (i + 1) := by omega
      simp only [length, shift] at before last
      refine ⟨retries + 1, by omega, fun i lt => ?_, ?_⟩
      · cases i with
        | zero => exact limited
        | succ i => exact before i (by omega)
      · rw [makeRequest_succ_of_rateLimited net limited]
        rcases last with ⟨unlimited, result⟩ | ⟨rfl, stillLimited, result⟩
        · exact .inl ⟨unlimited, by rw [result]; simp [send, List.replicate_succ]⟩
        · exact .inr ⟨rfl, stillLimited, by rw [result]; simp [send, List.replicate_succ]⟩
termination_by depth

/-! ## A whole run -/

/-- `after` is `before` after `migrate_issue` finished for each of `issues`: one log entry per
issue, in order, each counter grown by the entries of its status, a dry run's entries all
`success`, and nothing else changed but the session. -/
def Records (issues : List Issue) (before after : IssueMigrator) : Prop :=
  ∃ entries attempts, after = { before with
      session := before.session ++ attempts
      migratedCount := before.migratedCount + (entries.filter (·.status = "success")).length
      failedCount := before.failedCount + (entries.filter (·.status = "failed")).length
      migrationLog := before.migrationLog ++ entries } ∧
    entries.map LogEntry.sourceIssue = issues.map (·.number) ∧
    (before.dryRun = true → ∀ entry ∈ entries, entry.status = "success")

variable (env : Env)

namespace Records

theorem of_session {before after : IssueMigrator} {attempts : List (Request × Bool)}
    (h : after = { before with session := before.session ++ attempts }) : Records [] before after :=
  ⟨[], attempts, by rw [h]; simp, rfl, nofun⟩

theorem append {l₁ l₂ : List Issue} {s₁ s₂ s₃ : IssueMigrator} (h₁ : Records l₁ s₁ s₂)
    (h₂ : Records l₂ s₂ s₃) : Records (l₁ ++ l₂) s₁ s₃ := by
  obtain ⟨e₁, a₁, rfl, m₁, d₁⟩ := h₁
  obtain ⟨e₂, a₂, rfl, m₂, d₂⟩ := h₂
  refine ⟨e₁ ++ e₂, a₁ ++ a₂, by simp [Nat.add_assoc], by simp [m₁, m₂], fun dry entry mem => ?_⟩
  rcases List.mem_append.mp mem with mem | mem
  exacts [d₁ dry entry mem, d₂ dry entry mem]

theorem migrateIssue (fuel : Nat) (issue : Issue) (self : IssueMigrator) :
    Records (if (self.migrateIssue env fuel issue).value?.isSome then [issue] else []) self
      (self.migrateIssue env fuel issue).state := by
  obtain ⟨attempts, -, logs, -⟩ := migrateIssue_spec env fuel issue self
  generalize self.migrateIssue env fuel issue = result at logs ⊢
  rcases result with ⟨_ | _, after⟩ | ⟨_, after⟩ | after
  · obtain ⟨live, rfl⟩ := logs
    exact ⟨[.failed issue.number issue.title "Failed to create issue"], attempts, by simp [LogEntry.status],
      rfl, fun dry => absurd (live.symm.trans dry) Bool.false_ne_true⟩
  · obtain ⟨destIssue, destUrl, rfl⟩ := logs
    exact ⟨[.success issue.number issue.htmlUrl destIssue destUrl issue.title], attempts,
      by simp [LogEntry.status], rfl, fun _ => by simp [LogEntry.status]⟩
  · exact of_session logs
  · exact of_session logs

theorem forEach (fuel : Nat) (issues : List Issue) :
    ∀ self : IssueMigrator, ∃ done, done <+: issues ∧
      Records done self (IssueMigrator.forEach (fun issue self => self.migrateIssue env fuel issue)
        issues self).state ∧
      ((IssueMigrator.forEach (fun issue self => self.migrateIssue env fuel issue)
        issues self).value?.isSome → done = issues) := by
  induction issues with
  | nil => exact fun self => ⟨[], List.nil_prefix, ⟨[], [], by simp [IssueMigrator.forEach], rfl, nofun⟩, fun _ => rfl⟩
  | cons issue issues ih =>
    intro self
    have first := migrateIssue env fuel issue self
    rw [IssueMigrator.forEach]
    generalize self.migrateIssue env fuel issue = result at first ⊢
    rcases result with ⟨_, s⟩ | ⟨_, s⟩ | s
    · obtain ⟨done, begins, rest, full⟩ := ih s
      exact ⟨issue :: done, List.cons_prefix_cons.mpr ⟨rfl, begins⟩, first.append rest,
        fun returned => by rw [full returned]⟩
    · exact ⟨[], List.nil_prefix, first, nofun⟩
    · exact ⟨[], List.nil_prefix, first, nofun⟩

end Records

/-- The issues `get_all_issues` returned to `migrate_all_issues`; none when it did not return. -/
def fetchedIssues (fuel : Nat) (self : IssueMigrator) : List Issue :=
  (self.getAllIssues env fuel sourceRepo "all").value?.getD []

theorem records_migrateAllIssues (fuel : Nat) (self : IssueMigrator) :
    ∃ done, done <+: self.fetchedIssues env fuel ∧ Records done self (self.migrateAllIssues env fuel).state ∧
      ((self.migrateAllIssues env fuel).value?.isSome → done = self.fetchedIssues env fuel) := by
  obtain ⟨⟨attempts, after, -⟩, -⟩ := calls_getAllIssues env fuel sourceRepo "all" self
  unfold migrateAllIssues fetchedIssues
  generalize self.getAllIssues env fuel sourceRepo "all" = fetched at after ⊢
  rcases fetched with ⟨issues, s₁⟩ | ⟨_, s₁⟩ | s₁
  · simp only [Ends.returns_andThen, Ends.value?_returns, Option.getD_some]
    have listed : Records [] self s₁ := Records.of_session after
    split_ifs with empty
    · rw [List.isEmpty_iff.mp empty]
      exact ⟨[], List.nil_prefix, listed, fun _ => rfl⟩
    · obtain ⟨done, begins, recorded, full⟩ := Records.forEach env fuel issues s₁
      exact ⟨done, begins, listed.append recorded, full⟩
  · exact ⟨[], List.nil_prefix, Records.of_session after, nofun⟩
  · exact ⟨[], List.nil_prefix, Records.of_session after, nofun⟩

theorem migrateAllIssues_dryRun_counts (fuel : Nat) (self : IssueMigrator) (dry : self.dryRun = true) :
    (self.migrateAllIssues env fuel).state.failedCount = self.failedCount ∧
      (∀ entry ∈ (self.migrateAllIssues env fuel).state.migrationLog.drop self.migrationLog.length,
        entry.status = "success") ∧
      (self.migrateAllIssues env fuel).state.migratedCount = self.migratedCount +
        ((self.migrateAllIssues env fuel).state.migrationLog.length - self.migrationLog.length) ∧
      ((self.migrateAllIssues env fuel).value?.isSome →
        (self.migrateAllIssues env fuel).state.migratedCount =
          self.migratedCount + (self.fetchedIssues env fuel).length) := by
  obtain ⟨done, -, ⟨entries, attempts, result, numbers, success⟩, full⟩ :=
    records_migrateAllIssues env fuel self
  have all : entries.filter (·.status = "success") = entries :=
    List.filter_eq_self.mpr fun entry mem => by simpa using success dry entry mem
  have none : entries.filter (·.status = "failed") = [] :=
    List.filter_eq_nil_iff.mpr fun entry mem => by simp [success dry entry mem]
  rw [result]
  refine ⟨by rw [none]; rfl, fun entry mem => success dry entry (by simpa using mem),
    by simp [all], fun returned => ?_⟩
  rw [all, ← full returned, ← List.length_map _ LogEntry.sourceIssue, numbers, List.length_map]

/-! ## Labels -/

theorem forEach_call {γ : Type} (request : γ → Request)
    (unlimited : ∀ attempt x, (env.net attempt (request x)).rateLimited = false)
    (f : γ → IssueMigrator → Ends Unit)
    (sends : ∀ x s, s.dryRun = false → f x s = (s.call env (request x)).andThen fun _ s => .returns () s) :
    ∀ (items : List γ) (self : IssueMigrator), self.dryRun = false →
      ∃ attempts, forEach f items self = .returns () { self with session := self.session ++ attempts } ∧
        attempts.map (·.1) = items.map request
  | [], self, _ => ⟨[], by simp [IssueMigrator.forEach], rfl⟩
  | x :: items, self, live => by
    rw [IssueMigrator.forEach, sends x self live, call,
      makeRequest_of_not_rateLimited env.net (unlimited _ _)]
    obtain ⟨attempts, result, sent⟩ := forEach_call request unlimited f sends items
      (self.send (request x) (env.net self.session.length (request x)).passed) live
    exact ⟨(request x, (env.net self.session.length (request x)).passed) :: attempts,
      by simp only [Ends.returns_andThen]; rw [result]; simp [send], by simp [sent]⟩

theorem ensureLabelsExist_of_listed (repo : String) (existing : List Label)
    (listed : ∀ attempt, env.net attempt (.listLabels repo perPage) = .ok existing)
    (labels : List String) (self : IssueMigrator) (nonempty : labels ≠ []) :
    self.ensureLabelsExist env repo labels =
      forEach (fun label self => if self.dryRun then .returns () self else (self.call env
          (.createLabel repo label defaultColor ("Migrated from " ++ sourceRepo))).andThen
            fun _ self => .returns () self)
        (labels.filter (· ∉ existing.map (·.name))) (self.send (.listLabels repo perPage) true) := by
  unfold ensureLabelsExist
  rw [if_neg (by simpa using nonempty), call, makeRequest_ok env.net (listed _), Ends.returns_andThen]

theorem migrateAllIssues_requests (fuel : Nat) (self : IssueMigrator) :
    ∃ attempts, (self.migrateAllIssues env fuel).state.session = self.session ++ attempts ∧
      ∀ a ∈ attempts, (∃ page, a.1 = .listIssues sourceRepo "all" page perPage) ∨
        (∃ issueNumber page, a.1 = .listComments sourceRepo issueNumber page perPage) ∨
        a.1 = .listLabels destRepo perPage ∨ (a.1.method ≠ .GET ∧ a.1.repo = destRepo) := by
  obtain ⟨-, attempts, session, allowed⟩ := grows_migrateAllIssues env fuel self
  exact ⟨attempts, session, fun a m => (allowed a m).1⟩

end IssueMigrator

/-- The destination lists the label `bug` and accepts every label it is asked to create. -/
def bugListed : Network := fun _ request =>
  match request with
  | .listLabels .. => .ok [⟨"bug"⟩]
  | .createLabel .. | .closeIssue .. | .createComment .. => .ok ()
  | .listIssues .. => .ok []
  | .listComments .. => .ok []
  | .createIssue .. => .requestError

/-- The API answers nothing. -/
def silent : Network := fun _ _ => .requestError

theorem migrateAllIssues_dryRun_counts_of_silent :
    (IssueMigrator.init true).dryRun = true ∧
      ((IssueMigrator.init true).migrateAllIssues ⟨silent, fun _ => 0⟩ 1).state.failedCount =
        (IssueMigrator.init true).failedCount ∧
      (∀ entry ∈ ((IssueMigrator.init true).migrateAllIssues ⟨silent, fun _ => 0⟩ 1).state.migrationLog.drop
          (IssueMigrator.init true).migrationLog.length, entry.status = "success") ∧
      ((IssueMigrator.init true).migrateAllIssues ⟨silent, fun _ => 0⟩ 1).state.migratedCount =
        (IssueMigrator.init true).migratedCount +
          (((IssueMigrator.init true).migrateAllIssues ⟨silent, fun _ => 0⟩ 1).state.migrationLog.length -
            (IssueMigrator.init true).migrationLog.length) ∧
      (((IssueMigrator.init true).migrateAllIssues ⟨silent, fun _ => 0⟩ 1).value?.isSome →
        ((IssueMigrator.init true).migrateAllIssues ⟨silent, fun _ => 0⟩ 1).state.migratedCount =
          (IssueMigrator.init true).migratedCount +
            ((IssueMigrator.init true).fetchedIssues ⟨silent, fun _ => 0⟩ 1).length) :=
  ⟨rfl, IssueMigrator.migrateAllIssues_dryRun_counts ⟨silent, fun _ => 0⟩ 1 _ rfl⟩

end Feagi.Migrate
