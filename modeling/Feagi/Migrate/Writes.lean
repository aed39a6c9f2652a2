import Feagi.Migrate.Paging
import Feagi.Migrate.Run

/-!
# What a live migration of one issue writes

Outside a dry run, `migrate_issue` writes the labels the destination misses, the issue with the
migration note after its body, the close of the new issue when the source issue is closed, and
one attributed comment per source comment, up to the first comment whose `user` is `null`: there
`comment.get("user", {}).get("login", "unknown")` raises `AttributeError`.
-/

namespace Feagi.Migrate
namespace IssueMigrator

/-- The requests of `attempts` that write: every one that is not a `GET`. -/
def writes (attempts : List (Request × Bool)) : List Request :=
  (attempts.map (·.1)).filter (·.method ≠ .GET)

@[simp] theorem writes_append (a b : List (Request × Bool)) :
    writes (a ++ b) = writes a ++ writes b := by
  simp [writes]

theorem writes_of_map {γ : Type} {attempts : List (Request × Bool)} {items : List γ}
    {request : γ → Request} (sent : attempts.map (·.1) = items.map request)
    (posts : ∀ x, (request x).method ≠ .GET) :
    writes attempts = items.map request := by
  rw [writes, sent, List.filter_eq_self]
  intro r mem
  obtain ⟨x, -, rfl⟩ := List.mem_map.mp mem
  simpa using posts x

theorem writes_of_gets {attempts : List (Request × Bool)} (gets : ∀ a ∈ attempts, a.1.method = .GET) :
    writes attempts = [] := by
  rw [writes, List.filter_eq_nil_iff]
  intro r mem
  obtain ⟨a, inAttempts, rfl⟩ := List.mem_map.mp mem
  simpa using gets a inAttempts

/-- The attributed comments `migrate_issue` posts: those before the first comment whose author it
cannot read. -/
def attributedComments : List Comment → List String
  | [] => []
  | comment :: comments =>
    match commentAuthor comment with
    | .error _ => []
    | .ok author => commentWithAttr comment author :: attributedComments comments

theorem commentAuthor_eq_error {comment : Comment} {error : PyError} :
    commentAuthor comment = .error error ↔ comment.user = .null ∧ error = .attributeError := by
  unfold commentAuthor
  split <;> simp_all [eq_comm]

/-! ## The steps of `migrate_issue` -/

section Steps

variable (env : Env) (unlimited : ∀ attempt request, (env.net attempt request).rateLimited = false)
include unlimited

theorem ensureLabels_writes (existing : List Label)
    (listed : ∀ attempt, env.net attempt (.listLabels destRepo perPage) = .ok existing)
    (labels : List String) (self : IssueMigrator) (live : self.dryRun = false) :
    ∃ attempts, (if labels.isEmpty then .returns () self else self.ensureLabelsExist env destRepo labels) =
        .returns () { self with session := self.session ++ attempts } ∧
      writes attempts = (labels.filter (· ∉ existing.map (·.name))).map
        fun label => .createLabel destRepo label defaultColor ("Migrated from " ++ sourceRepo) := by
  cases labels with
  | nil => exact ⟨[], by simp, rfl⟩
  | cons label rest =>
    rw [if_neg (by simp), ensureLabelsExist_of_listed env destRepo existing listed _ self
      (List.cons_ne_nil _ _)]
    obtain ⟨attempts, result, sent⟩ := forEach_call env
      (fun label => .createLabel destRepo label defaultColor ("Migrated from " ++ sourceRepo))
      (fun attempt _ => unlimited attempt _) _
      (fun _ _ live => if_neg (ne_of_eq_of_ne live Bool.false_ne_true)) _
      (self.send (.listLabels destRepo perPage) true) live
    refine ⟨(.listLabels destRepo perPage, true) :: attempts, by rw [result]; simp [send], ?_⟩
    rw [← List.singleton_append, writes_append, writes_of_gets (by simp [Request.method]),
      List.nil_append]
    exact writes_of_map sent fun _ => nofun

theorem createIssue_writes (title body : String) (labels : List String) (state : String)
    (created : CreatedIssue)
    (accepted : ∀ attempt, env.net attempt (.createIssue destRepo title body labels) = .ok created)
    (self : IssueMigrator) (live : self.dryRun = false) :
    ∃ attempts, self.createIssue env destRepo title body labels state =
        .returns (some created) { self with session := self.session ++ attempts } ∧
      writes attempts = .createIssue destRepo title body labels ::
        if state = "closed" then [.closeIssue destRepo created.number] else [] := by
  unfold createIssue
  rw [if_neg (ne_of_eq_of_ne live Bool.false_ne_true), call, makeRequest_ok env.net (accepted _),
    Ends.returns_andThen]
  dsimp only
  split_ifs
  · unfold closeIssue
    have stillLive : (self.send (.createIssue destRepo title body labels) true).dryRun = false := live
    rw [if_neg (ne_of_eq_of_ne stillLive Bool.false_ne_true), call,
      makeRequest_of_not_rateLimited env.net (unlimited _ _), Ends.returns_andThen, Ends.returns_andThen]
    exact ⟨[(.createIssue destRepo title body labels, true), (.closeIssue destRepo created.number,
      (env.net (self.session.length + 1) (.closeIssue destRepo created.number)).passed)],
      by simp [send], by simp [writes, Request.method]⟩
  · exact ⟨[(.createIssue destRepo title body labels, true)], by simp [send],
      by simp [writes, Request.method]⟩

omit unlimited in
theorem getIssueComments_writes (fuel : Nat) (issueNumber : Nat) (comments : List Comment)
    (served : ∀ attempt page,
      env.net attempt (.listComments sourceRepo issueNumber page perPage) = .ok (pageOf comments page))
    (enough : comments.length / perPage < fuel) (self : IssueMigrator) :
    ∃ attempts, self.getIssueComments env fuel sourceRepo issueNumber =
        .returns comments { self with session := self.session ++ attempts } ∧ writes attempts = [] := by
  obtain ⟨⟨attempts, after, gets⟩, -⟩ := calls_getIssueComments env fuel sourceRepo issueNumber self
  refine ⟨attempts, ?_, writes_of_gets gets⟩
  have returned := getIssueCommentsLoop_served env sourceRepo issueNumber comments served fuel 0 [] self
    (by simpa using enough)
  rw [← after]
  exact Ends.eq_returns_of_value? (by simpa using returned)

theorem postComments_writes (issueNumber : Nat) (comments : List Comment) :
    ∀ self : IssueMigrator, self.dryRun = false →
      ∃ attempts, forEach (postComment env issueNumber) comments self =
          (if comments.all (·.user != .null) then Ends.returns () else Ends.raises .attributeError)
            { self with session := self.session ++ attempts } ∧
        writes attempts = (attributedComments comments).map (.createComment destRepo issueNumber) := by
  induction comments with
  | nil => exact fun self _ => ⟨[], by simp [forEach], rfl⟩
  | cons comment comments ih =>
    intro self live
    rw [forEach, postComment]
    cases author : commentAuthor comment with
    | error error =>
      obtain ⟨null, rfl⟩ := commentAuthor_eq_error.mp author
      exact ⟨[], by simp [null], by simp [attributedComments, author, writes]⟩
    | ok author' =>
      have present : comment.user ≠ .null := fun null =>
        nomatch author.symm.trans (commentAuthor_eq_error.mpr ⟨null, rfl⟩)
      dsimp only
      unfold createComment
      rw [if_neg (ne_of_eq_of_ne live Bool.false_ne_true), call,
        makeRequest_of_not_rateLimited env.net (unlimited _ _)]
      simp only [Ends.returns_andThen]
      obtain ⟨attempts, result, sent⟩ := ih (self.send
        (.createComment destRepo issueNumber (commentWithAttr comment author'))
        (env.net self.session.length (.createComment destRepo issueNumber
          (commentWithAttr comment author'))).passed) live
      have kept : (comment.user != .null) = true := bne_iff_ne.mpr present
      refine ⟨(.createComment destRepo issueNumber (commentWithAttr comment author'),
        (env.net self.session.length
          (.createComment destRepo issueNumber (commentWithAttr comment author'))).passed) :: attempts,
        by rw [result, List.all_cons, kept, Bool.true_and]; simp [send], ?_⟩
      rw [← List.singleton_append, writes_append, sent]
      simp [writes, Request.method, attributedComments, author]

end Steps

/-! ## One issue -/

/-- The destination lists no labels and accepts everything; the source serves `seenOnMain` as the
comments of every issue. -/
def welcoming : Network := fun _ request =>
  match request with
  | .listLabels .. => .ok []
  | .createIssue .. => .ok ⟨12, ""⟩
  | .listComments _ _ page perPage => .ok ((seenOnMain.drop ((page - 1) * perPage)).take perPage)
  | .listIssues .. => .ok []
  | .closeIssue .. | .createComment .. | .createLabel .. => .ok ()

/-- A closed source issue labelled `bug`. -/
def closedBug : Issue := ⟨7, "Crash on start", some "Steps", "closed", [⟨"bug"⟩], "", "", false⟩

end IssueMigrator
end Feagi.Migrate
