import Mathlib.Data.List.Infix

/-!
# The issue migrator of `scripts/migrate_issues.py`

The network is an oracle: the outcome of the `n`-th attempt of the run for the request sent,
with a body of the type the call site reads. `session` records every attempt and whether it
passed `raise_for_status`. A method call `Ends` by returning or raising, with the migrator as it
left it, or is still `running` when the fuel of its `while True` loop is spent. On a rate-limited
reply `_make_request` calls itself until Python's recursion limit raises `RecursionError`.
-/

namespace Feagi.Migrate

def sourceRepo : String := "feagi/feagi-data-processing"

def destRepo : String := "feagi/feagi-core"

def perPage : Nat := 100

inductive Method where
  | GET
  | POST
  | PATCH
  deriving DecidableEq, Repr

/-- A key read with `.get(key, default)`: absent, JSON `null`, or a value. -/
inductive Field (α : Type) where
  | missing
  | null
  | value (a : α)
  deriving DecidableEq, Repr

/-- `f"{d.get(key, default)}"`: `None` prints as `None`. -/
def Field.format (default : String) : Field String → String
  | .missing => default
  | .null => "None"
  | .value s => s

structure Label where
  name : String
  deriving DecidableEq, Repr

structure Issue where
  number : Nat
  title : String
  body : Option String
  state : String
  labels : List Label
  createdAt : String
  htmlUrl : String
  pullRequest : Bool
  deriving DecidableEq, Repr

structure User where
  login : Field String
  deriving DecidableEq, Repr

structure Comment where
  body : Field String
  user : Field User
  createdAt : Field String
  deriving DecidableEq, Repr

structure CreatedIssue where
  number : Nat
  htmlUrl : String
  deriving DecidableEq, Repr

/-- The requests the script sends, one constructor per call site of `_make_request`. -/
inductive Request where
  | listIssues (repo state : String) (page perPage : Nat)
  | listComments (repo : String) (issueNumber page perPage : Nat)
  | listLabels (repo : String) (perPage : Nat)
  | createIssue (repo title body : String) (labels : List String)
  | closeIssue (repo : String) (issueNumber : Nat)
  | createComment (repo : String) (issueNumber : Nat) (body : String)
  | createLabel (repo name color description : String)
  deriving DecidableEq, Repr

def Request.method : Request → Method
  | .listIssues .. | .listComments .. | .listLabels .. => .GET
  | .createIssue .. | .createComment .. | .createLabel .. => .POST
  | .closeIssue .. => .PATCH

@[reducible] def Request.Reply : Request → Type
  | .listIssues .. => List Issue
  | .listComments .. => List Comment
  | .listLabels .. => List Label
  | .createIssue .. => CreatedIssue
  | .closeIssue .. | .createComment .. | .createLabel .. => Unit

inductive Outcome (α : Type) where
  | ok (body : α)
  | httpError (statusCode : Nat) (text : String)
  | requestError
  deriving DecidableEq, Repr

def Outcome.passed {α : Type} : Outcome α → Bool
  | .ok _ => true
  | _ => false

def Network : Type := (attempt : Nat) → (request : Request) → Outcome request.Reply

/-- What a run depends on besides the migrator: the outcome of each attempt, and how many more
times `_make_request`, called for `request`, can call itself before Python's recursion limit. -/
structure Env where
  net : Network
  depth : Request → Nat

def rateLimitExceeded (text : String) : Bool :=
  decide ("rate limit".toList <:+: text.toList.map Char.toLower)

/-- The exceptions that escape the migrator's methods. -/
inductive PyError where
  /-- `None.get('login', 'unknown')`, for a comment whose `user` is `null`. -/
  | attributeError
  /-- `_make_request` calling itself past Python's recursion limit. -/
  | recursionError
  deriving DecidableEq, Repr

inductive LogEntry where
  | success (sourceIssue : Nat) (sourceUrl : String) (destIssue : Nat) (destUrl title : String)
  | failed (sourceIssue : Nat) (title error : String)
  deriving DecidableEq, Repr

def LogEntry.status : LogEntry → String
  | .success .. => "success"
  | .failed .. => "failed"

structure IssueMigrator where
  dryRun : Bool
  migratedCount : Nat
  failedCount : Nat
  skippedCount : Nat
  migrationLog : List LogEntry
  session : List (Request × Bool)
  deriving DecidableEq, Repr

/-- How a method call ends. -/
inductive Ends (α : Type) where
  | returns (value : α) (self : IssueMigrator)
  | raises (error : PyError) (self : IssueMigrator)
  | running (self : IssueMigrator)
  deriving DecidableEq, Repr

namespace Ends

variable {α β : Type}

/-- The migrator as the call left it. -/
def state : Ends α → IssueMigrator
  | .returns _ self | .raises _ self | .running self => self

def value? : Ends α → Option α
  | .returns value _ => some value
  | _ => none

def error? : Ends α → Option PyError
  | .raises error _ => some error
  | _ => none

@[simp] theorem state_returns (value : α) (self : IssueMigrator) : (returns value self).state = self :=
  rfl

@[simp] theorem state_raises (error : PyError) (self : IssueMigrator) :
    (raises error self : Ends α).state = self := rfl

@[simp] theorem state_running (self : IssueMigrator) : (running self : Ends α).state = self := rfl

@[simp] theorem value?_returns (value : α) (self : IssueMigrator) :
    (returns value self).value? = some value := rfl

@[simp] theorem value?_raises (error : PyError) (self : IssueMigrator) :
    (raises error self : Ends α).value? = none := rfl

@[simp] theorem value?_running (self : IssueMigrator) : (running self : Ends α).value? = none := rfl

@[simp] theorem error?_returns (value : α) (self : IssueMigrator) :
    (returns value self).error? = none := rfl

@[simp] theorem error?_raises (error : PyError) (self : IssueMigrator) :
    (raises error self : Ends α).error? = some error := rfl

@[simp] theorem error?_running (self : IssueMigrator) : (running self : Ends α).error? = none := rfl

/-- The rest of the caller, run on what the call returned; an exception or a spent loop
propagates. -/
def andThen : Ends α → (α → IssueMigrator → Ends β) → Ends β
  | .returns value self, rest => rest value self
  | .raises error self, _ => .raises error self
  | .running self, _ => .running self

theorem eq_returns_of_value? {e : Ends α} {value : α} (h : e.value? = some value) :
    e = .returns value e.state := by
  cases e with
  | returns v s =>
    simp only [value?_returns, Option.some.injEq] at h
    rw [h]
    rfl
  | raises _ _ | running _ => cases h

@[simp] theorem returns_andThen (value : α) (self : IssueMigrator) (rest : α → IssueMigrator → Ends β) :
    (returns value self).andThen rest = rest value self := rfl

@[simp] theorem raises_andThen (error : PyError) (self : IssueMigrator)
    (rest : α → IssueMigrator → Ends β) : (raises error self).andThen rest = raises error self := rfl

@[simp] theorem running_andThen (self : IssueMigrator) (rest : α → IssueMigrator → Ends β) :
    (running self).andThen rest = running self := rfl

end Ends

namespace IssueMigrator

def init (dryRun : Bool) : IssueMigrator :=
  ⟨dryRun, 0, 0, 0, [], []⟩

def send (self : IssueMigrator) (request : Request) (passed : Bool) : IssueMigrator :=
  { self with session := self.session ++ [(request, passed)] }

/-- `for item in items: f(item)`, stopping at the first call that does not return. -/
def forEach {α β : Type} (f : α → IssueMigrator → Ends β) : List α → IssueMigrator → Ends Unit
  | [], self => .returns () self
  | item :: items, self => (f item self).andThen fun _ self => forEach f items self

/-- `_make_request`, able to call itself `depth` more times. -/
def makeRequest (net : Network) (request : Request) : Nat → IssueMigrator →
    Ends (Option request.Reply)
  | depth, self =>
    let outcome := net self.session.length request
    let self := self.send request outcome.passed
    match outcome with
    | .ok body => .returns (some body) self
    | .httpError statusCode text =>
      if statusCode = 404 then .returns none self
      else if statusCode = 403 then
        if rateLimitExceeded text then
          match depth with
          | 0 => .raises .recursionError self
          | depth + 1 => makeRequest net request depth self
        else .returns none self
      else .returns none self
    | .requestError => .returns none self

section Requests

variable (env : Env)

/-- `self._make_request(...)` at the call site of `request`. -/
def call (request : Request) (self : IssueMigrator) : Ends (Option request.Reply) :=
  self.makeRequest env.net request (env.depth request)

def getAllIssuesLoop (repo state : String) :
    Nat → Nat → List Issue → IssueMigrator → Ends (List Issue)
  | 0, _, _, self => .running self
  | fuel + 1, page, issues, self =>
    (self.call env (.listIssues repo state page perPage)).andThen fun response self =>
    match response with
    | none => .returns issues self
    | some [] => .returns issues self
    | some pageIssues =>
      let pageIssues := pageIssues.filter fun issue => !issue.pullRequest
      let issues := issues ++ pageIssues
      if pageIssues.length < perPage then .returns issues self
      else getAllIssuesLoop repo state fuel (page + 1) issues self

def getAllIssues (fuel : Nat) (repo state : String) (self : IssueMigrator) : Ends (List Issue) :=
  getAllIssuesLoop env repo state fuel 1 [] self

def getIssueCommentsLoop (repo : String) (issueNumber : Nat) :
    Nat → Nat → List Comment → IssueMigrator → Ends (List Comment)
  | 0, _, _, self => .running self
  | fuel + 1, page, comments, self =>
    (self.call env (.listComments repo issueNumber page perPage)).andThen fun response self =>
    match response with
    | none => .returns comments self
    | some [] => .returns comments self
    | some pageComments =>
      let comments := comments ++ pageComments
      if pageComments.length < perPage then .returns comments self
      else getIssueCommentsLoop repo issueNumber fuel (page + 1) comments self

def getIssueComments (fuel : Nat) (repo : String) (issueNumber : Nat) (self : IssueMigrator) :
    Ends (List Comment) :=
  getIssueCommentsLoop env repo issueNumber fuel 1 [] self

def closeIssue (repo : String) (issueNumber : Nat) (self : IssueMigrator) : Ends Bool :=
  if self.dryRun then .returns true self
  else (self.call env (.closeIssue repo issueNumber)).andThen fun response self =>
    .returns response.isSome self

def createIssue (repo title body : String) (labels : List String) (state : String)
    (self : IssueMigrator) : Ends (Option CreatedIssue) :=
  if self.dryRun then .returns (some ⟨0, "https://github.com/" ++ repo ++ "/issues/0"⟩) self
  else (self.call env (.createIssue repo title body labels)).andThen fun response self =>
    match response with
    | none => .returns none self
    | some createdIssue =>
      if state = "closed" then
        (self.closeIssue env repo createdIssue.number).andThen fun _ self =>
          .returns (some createdIssue) self
      else .returns (some createdIssue) self

def createComment (repo : String) (issueNumber : Nat) (body : String) (self : IssueMigrator) :
    Ends Bool :=
  if self.dryRun then .returns true self
  else (self.call env (.createComment repo issueNumber body)).andThen fun response self =>
    .returns response.isSome self

def defaultColor : String := "ededed"

def ensureLabelsExist (repo : String) (labels : List String) (self : IssueMigrator) : Ends Unit :=
  if labels.isEmpty then .returns () self
  else (self.call env (.listLabels repo perPage)).andThen fun response self =>
    match response with
    | none => .returns () self
    | some existing =>
      let existingLabels := existing.map (·.name)
      let missingLabels := labels.filter (· ∉ existingLabels)
      forEach (fun label self =>
        if self.dryRun then .returns () self
        else (self.call env
          (.createLabel repo label defaultColor ("Migrated from " ++ sourceRepo))).andThen
            fun _ self => .returns () self) missingLabels self

end Requests

def migrationNote (issueNumber : Nat) (originalUrl createdAt : String) : String :=
  let note := "\n\n---\n**Migrated from [" ++ sourceRepo ++ "#" ++ toString issueNumber ++ "](" ++
    originalUrl ++ ")**\n"
  if createdAt.isEmpty then note else note ++ "*Original issue created: " ++ createdAt ++ "*\n"

/-- `comment.get("user", {}).get("login", "unknown")`. -/
def commentAuthor (comment : Comment) : Except PyError String :=
  match comment.user with
  | .missing => .ok "unknown"
  | .null => .error .attributeError
  | .value user => .ok (user.login.format "unknown")

def commentWithAttr (comment : Comment) (commentAuthor : String) : String :=
  comment.body.format "" ++ "\n\n" ++ "---\n" ++ "*Comment by @" ++ commentAuthor ++
    " from original issue*\n" ++ "*Posted: " ++ comment.createdAt.format "" ++ "*\n"

/-- One pass of the comments loop of `migrate_issue`. -/
def postComment (env : Env) (issueNumber : Nat) (comment : Comment) (self : IssueMigrator) :
    Ends Unit :=
  match commentAuthor comment with
  | .error error => .raises error self
  | .ok author => (self.createComment env destRepo issueNumber (commentWithAttr comment author)).andThen
      fun _ self => .returns () self

def migrateIssue (env : Env) (fuel : Nat) (issue : Issue) (self : IssueMigrator) : Ends Bool :=
  let labels := issue.labels.map (·.name)
  let body := issue.body.getD "" ++ migrationNote issue.number issue.htmlUrl issue.createdAt
  (if labels.isEmpty then .returns () self else self.ensureLabelsExist env destRepo labels).andThen
    fun _ self =>
  (self.createIssue env destRepo issue.title body labels issue.state).andThen fun response self =>
  match response with
  | none =>
    .returns false { self with
      failedCount := self.failedCount + 1
      migrationLog := self.migrationLog ++ [.failed issue.number issue.title "Failed to create issue"] }
  | some createdIssue =>
    (self.getIssueComments env fuel sourceRepo issue.number).andThen fun comments self =>
    (forEach (postComment env createdIssue.number) comments self).andThen fun _ self =>
    .returns true { self with
      migratedCount := self.migratedCount + 1
      migrationLog := self.migrationLog ++
        [.success issue.number issue.htmlUrl createdIssue.number createdIssue.htmlUrl issue.title] }

def migrateAllIssues (env : Env) (fuel : Nat) (self : IssueMigrator) : Ends Unit :=
  (self.getAllIssues env fuel sourceRepo "all").andThen fun issues self =>
  if issues.isEmpty then .returns () self
  else forEach (fun issue self => self.migrateIssue env fuel issue) issues self

end IssueMigrator

end Feagi.Migrate
