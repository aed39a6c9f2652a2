import Feagi.Migrate.Session

/-!
# Paging through the GitHub list endpoints

The list endpoints serve a list in order, `perPage` items a page: every page but the last is
full, and the pages after it are empty (`pageOf`). `get_issue_comments` stops at a short page;
`get_all_issues` filters out pull requests before it compares the page with `per_page`, so a
full page holding a pull request ends its loop early.
-/

namespace Feagi.Migrate

def pageOf {α : Type} (items : List α) (page : Nat) : List α :=
  (items.drop ((page - 1) * perPage)).take perPage

theorem drop_next_page {α : Type} (items : List α) (page : Nat) :
    items.drop ((page + 1) * perPage) = (items.drop (page * perPage)).drop perPage := by
  rw [List.drop_drop, Nat.succ_mul, Nat.add_comm]

namespace IssueMigrator

variable (env : Env)

theorem getIssueCommentsLoop_served (repo : String) (issueNumber : Nat) (comments : List Comment)
    (served : ∀ attempt page,
      env.net attempt (.listComments repo issueNumber page perPage) = .ok (pageOf comments page)) :
    ∀ fuel page (fetched : List Comment) (self : IssueMigrator),
      (comments.drop (page * perPage)).length / perPage < fuel →
      (getIssueCommentsLoop env repo issueNumber fuel (page + 1) fetched self).value? =
        some (fetched ++ comments.drop (page * perPage))
  | 0, _, _, _, enough => absurd enough (Nat.not_lt_zero _)
  | fuel + 1, page, fetched, self, enough => by
    rw [getIssueCommentsLoop, call, makeRequest_ok env.net (served _ _), Ends.returns_andThen]
    have next := getIssueCommentsLoop_served repo issueNumber comments served fuel (page + 1)
    simp only [pageOf, Nat.add_sub_cancel, drop_next_page] at next ⊢
    generalize comments.drop (page * perPage) = rest at enough next ⊢
    rcases first : rest.take perPage with _ | ⟨c, cs⟩
    · obtain rfl : rest = [] := by simpa [perPage] using first
      simp
    · dsimp only
      rw [← first]
      split_ifs with short
      · rw [Ends.value?_returns, List.take_of_length_le (by simp [perPage] at short ⊢; omega)]
      · rw [next _ _ (by simp only [List.length_drop, List.length_take, perPage] at short enough ⊢; omega),
          List.append_assoc, List.take_append_drop]

theorem getIssueComments_returns_all (fuel : Nat) (repo : String) (issueNumber : Nat)
    (comments : List Comment) (self : IssueMigrator)
    (served : ∀ attempt page,
      env.net attempt (.listComments repo issueNumber page perPage) = .ok (pageOf comments page))
    (enough : comments.length / perPage < fuel) :
    (self.getIssueComments env fuel repo issueNumber).value? = some comments := by
  simpa using getIssueCommentsLoop_served env repo issueNumber comments served fuel 0 [] self
    (by simpa using enough)

/-- The API serves the comment list `comments` page by page and answers nothing else. -/
def servingComments (comments : List Comment) : Network := fun _ request =>
  match request with
  | .listComments _ _ page perPage => .ok ((comments.drop ((page - 1) * perPage)).take perPage)
  | .listIssues .. | .listLabels .. | .createIssue .. | .closeIssue .. | .createComment ..
  | .createLabel .. => .requestError

def seenOnMain : List Comment := [⟨.value "Seen on main", .value ⟨.value "octocat"⟩, .value ""⟩]

theorem getIssueComments_returns_all_of_served :
    (∀ attempt page, servingComments seenOnMain attempt (.listComments sourceRepo 7 page perPage) =
        .ok (pageOf seenOnMain page)) ∧ seenOnMain.length / perPage < 1 ∧
      ((IssueMigrator.init false).getIssueComments ⟨servingComments seenOnMain, fun _ => 0⟩ 1
        sourceRepo 7).value? = some seenOnMain :=
  ⟨fun _ _ => rfl, by decide, getIssueComments_returns_all ⟨servingComments seenOnMain, fun _ => 0⟩
    1 sourceRepo 7 seenOnMain _ (fun _ _ => rfl) (by decide)⟩

theorem getAllIssuesLoop_no_pull_request (repo state : String) :
    ∀ fuel page (issues : List Issue) (self : IssueMigrator),
      (∀ issue ∈ issues, issue.pullRequest = false) →
      ∀ result ∈ (getAllIssuesLoop env repo state fuel page issues self).value?,
        ∀ issue ∈ result, issue.pullRequest = false
  | 0, _, _, _, _ => nofun
  | fuel + 1, page, issues, self, kept => by
    have appended : ∀ pageIssues : List Issue, ∀ issue ∈ issues ++ pageIssues.filter (!·.pullRequest),
        issue.pullRequest = false := fun pageIssues issue mem => by
      rcases List.mem_append.mp mem with mem | mem
      · exact kept issue mem
      · simpa using (List.mem_filter.mp mem).2
    rw [getAllIssuesLoop]
    rcases self.call env (.listIssues repo state page perPage) with
      ⟨_ | _ | ⟨first, rest⟩, after⟩ | _ | _
    · simpa using kept
    · simpa using kept
    · dsimp only [Ends.returns_andThen]
      split_ifs
      · rintro _ ⟨⟩
        exact appended _
      · exact getAllIssuesLoop_no_pull_request repo state fuel (page + 1) _ after (appended _)
    · nofun
    · nofun

theorem getAllIssues_no_pull_request (fuel : Nat) (repo state : String) (self : IssueMigrator) :
    ∀ issues ∈ (self.getAllIssues env fuel repo state).value?, ∀ issue ∈ issues,
      issue.pullRequest = false :=
  getAllIssuesLoop_no_pull_request env repo state fuel 1 [] self nofun

theorem getAllIssuesLoop_stops_at_pull_request (repo state : String) (items : List Issue)
    (served : ∀ attempt page,
      env.net attempt (.listIssues repo state page perPage) = .ok (pageOf items page))
    (fuel page : Nat) (fetched : List Issue) (self : IssueMigrator)
    (full : perPage ≤ (items.drop (page * perPage)).length)
    (pull : ∃ issue ∈ (items.drop (page * perPage)).take perPage, issue.pullRequest) :
    (getAllIssuesLoop env repo state (fuel + 1) (page + 1) fetched self).value? =
      some (fetched ++ ((items.drop (page * perPage)).take perPage).filter (!·.pullRequest)) := by
  rw [getAllIssuesLoop, call, makeRequest_ok env.net (served _ _), Ends.returns_andThen]
  simp only [pageOf, Nat.add_sub_cancel]
  generalize items.drop (page * perPage) = rest at full pull ⊢
  have dropped : ((rest.take perPage).filter (!·.pullRequest)).length < perPage := by
    refine lt_of_le_of_ne ((List.length_filter_le _ _).trans (List.length_take_le _ _)) fun same => ?_
    obtain ⟨issue, member, isPull⟩ := pull
    have kept := List.filter_length_eq_length.mp (same.trans (List.length_take_of_le full).symm)
      issue member
    simp [isPull] at kept
  rcases first : rest.take perPage with _ | ⟨c, cs⟩
  · simp [first] at pull
  · dsimp only
    rw [← first, if_pos dropped, Ends.value?_returns]

/-- A pull request followed by one hundred issues, in creation order. -/
def pullRequestFirst : List Issue :=
  ⟨1, "Pull request", none, "open", [], "", "", true⟩ ::
    (List.range 100).map fun n => ⟨n + 2, "Issue", none, "open", [], "", "", false⟩

/-- The API serves the issue list `items` page by page and answers nothing else. -/
def servingIssues (items : List Issue) : Network := fun _ request =>
  match request with
  | .listIssues _ _ page perPage => .ok ((items.drop ((page - 1) * perPage)).take perPage)
  | .listComments .. | .listLabels .. | .createIssue .. | .closeIssue .. | .createComment ..
  | .createLabel .. => .requestError

/-- One page holding a pull request and then an issue. -/
def pullRequestThenIssue : List Issue :=
  [⟨1, "Pull request", none, "open", [], "", "", true⟩, ⟨2, "Issue", none, "open", [], "", "", false⟩]

theorem getAllIssues_no_pull_request_of_pullRequestThenIssue :
    [pullRequestThenIssue[1]] ∈ ((IssueMigrator.init false).getAllIssues
        ⟨servingIssues pullRequestThenIssue, fun _ => 0⟩ 1 sourceRepo "all").value? ∧
      pullRequestThenIssue[1] ∈ [pullRequestThenIssue[1]] ∧ pullRequestThenIssue[1].pullRequest = false :=
  ⟨Option.mem_def.mpr (by decide), List.mem_singleton_self _, getAllIssues_no_pull_request
    ⟨servingIssues pullRequestThenIssue, fun _ => 0⟩ 1 sourceRepo "all" (IssueMigrator.init false)
    [pullRequestThenIssue[1]] (Option.mem_def.mpr (by decide)) _ (List.mem_singleton_self _)⟩

theorem getAllIssues_misses_second_page (depth : Request → Nat) (fuel : Nat) :
    ((IssueMigrator.init false).getAllIssues ⟨servingIssues pullRequestFirst, depth⟩ (fuel + 1)
        sourceRepo "all").value?.map List.length = some 99 ∧
      (pullRequestFirst.filter fun issue => !issue.pullRequest).length = 100 := by
  rw [getAllIssues, getAllIssuesLoop_stops_at_pull_request _ sourceRepo "all" pullRequestFirst
    (fun _ _ => rfl) fuel 0 [] _ (by decide) ⟨⟨1, "Pull request", none, "open", [], "", "", true⟩,
      by decide, rfl⟩]
  decide

end IssueMigrator
end Feagi.Migrate
