import Feagi.Migrate.Model

/-!
# What each method of the migrator sends

`SendsOnly P before after`: `after` is `before` with attempts of requests satisfying `P` appended
to its session, and nothing else changed. `Calls P self result`: the call from `self` that ended
as `result` took such a step and raised nothing but `RecursionError`; every method that talks to
the API is such a call, however it ends. `migrate_issue` also moves the counters and the log, so
it only `Grows` the session and keeps the dry-run flag.
-/

namespace Feagi.Migrate

/-- A reply `_make_request` sends again. -/
def Outcome.rateLimited {α : Type} : Outcome α → Bool
  | .httpError statusCode text => statusCode == 403 && rateLimitExceeded text
  | _ => false

theorem Outcome.eq_of_rateLimited {α : Type} {outcome : Outcome α} (limited : outcome.rateLimited = true) :
    ∃ text, outcome = .httpError 403 text ∧ rateLimitExceeded text = true := by
  cases outcome with
  | httpError code text =>
    simp only [Outcome.rateLimited, Bool.and_eq_true, beq_iff_eq] at limited
    exact ⟨text, by rw [limited.1], limited.2⟩
  | _ => cases limited

/-- What `_make_request` returns for a reply it does not send again. -/
def Outcome.response {α : Type} : Outcome α → Option α
  | .ok body => some body
  | _ => none

@[simp] theorem Outcome.isSome_response {α : Type} (outcome : Outcome α) :
    outcome.response.isSome = outcome.passed := by
  cases outcome <;> rfl

namespace IssueMigrator

def SendsOnly (P : Request → Prop) (before after : IssueMigrator) : Prop :=
  ∃ attempts, after = { before with session := before.session ++ attempts } ∧ ∀ a ∈ attempts, P a.1

def Grows (P : Request → Prop) (before after : IssueMigrator) : Prop :=
  after.dryRun = before.dryRun ∧
    ∃ attempts, after.session = before.session ++ attempts ∧ ∀ a ∈ attempts, P a.1

/-- The call from `self` that ended as `result` appended attempts of requests satisfying `P` to
the session, changed nothing else, and raised nothing but `RecursionError`. -/
def Calls {α : Type} (P : Request → Prop) (self : IssueMigrator) (result : Ends α) : Prop :=
  SendsOnly P self result.state ∧ ∀ error ∈ result.error?, error = .recursionError

variable {α β : Type} {P Q : Request → Prop} {s₁ s₂ s₃ : IssueMigrator}

namespace SendsOnly

theorem refl (P : Request → Prop) (self : IssueMigrator) : SendsOnly P self self :=
  ⟨[], by simp, by simp⟩

theorem trans (h₁ : SendsOnly P s₁ s₂) (h₂ : SendsOnly P s₂ s₃) : SendsOnly P s₁ s₃ := by
  obtain ⟨a₁, rfl, p₁⟩ := h₁
  obtain ⟨a₂, rfl, p₂⟩ := h₂
  refine ⟨a₁ ++ a₂, by simp, fun a member => ?_⟩
  rcases List.mem_append.mp member with h | h
  exacts [p₁ a h, p₂ a h]

theorem mono (h : SendsOnly P s₁ s₂) (weaker : ∀ r, P r → Q r) : SendsOnly Q s₁ s₂ := by
  obtain ⟨a, rfl, p⟩ := h
  exact ⟨a, rfl, fun x member => weaker _ (p x member)⟩

theorem grows (h : SendsOnly P s₁ s₂) : Grows P s₁ s₂ := by
  obtain ⟨a, rfl, p⟩ := h
  exact ⟨rfl, a, rfl, p⟩

theorem andThen {e : Ends α} {rest : α → IssueMigrator → Ends β} (first : SendsOnly P s₁ e.state)
    (next : ∀ a s, e = .returns a s → SendsOnly P s (rest a s).state) :
    SendsOnly P s₁ (e.andThen rest).state := by
  cases e with
  | returns a s => exact first.trans (next a s rfl)
  | raises _ _ | running _ => exact first

theorem forEach {f : α → IssueMigrator → Ends β} (dryRun : Bool)
    (step : ∀ x s, s.dryRun = dryRun → SendsOnly P s (f x s).state) (items : List α) :
    ∀ s : IssueMigrator, s.dryRun = dryRun → SendsOnly P s (IssueMigrator.forEach f items s).state := by
  induction items with
  | nil => exact fun s _ => refl P s
  | cons x items ih =>
    intro s flag
    refine (step x s flag).andThen fun _ s' returned => ih s' ?_
    have kept := (step x s flag).grows.1
    rw [returned] at kept
    exact kept.trans flag

end SendsOnly

namespace Grows

theorem refl (P : Request → Prop) (self : IssueMigrator) : Grows P self self :=
  ⟨rfl, [], by simp, by simp⟩

theorem trans (h₁ : Grows P s₁ s₂) (h₂ : Grows P s₂ s₃) : Grows P s₁ s₃ := by
  obtain ⟨d₁, a₁, e₁, p₁⟩ := h₁
  obtain ⟨d₂, a₂, e₂, p₂⟩ := h₂
  refine ⟨d₂.trans d₁, a₁ ++ a₂, by simp [e₁, e₂], fun a member => ?_⟩
  rcases List.mem_append.mp member with h | h
  exacts [p₁ a h, p₂ a h]

theorem mono (h : Grows P s₁ s₂) (weaker : ∀ r, P r → Q r) : Grows Q s₁ s₂ := by
  obtain ⟨d, a, e, p⟩ := h
  exact ⟨d, a, e, fun x member => weaker _ (p x member)⟩

theorem andThen {e : Ends α} {rest : α → IssueMigrator → Ends β} (first : Grows P s₁ e.state)
    (next : ∀ a s, e = .returns a s → Grows P s (rest a s).state) :
    Grows P s₁ (e.andThen rest).state := by
  cases e with
  | returns a s => exact first.trans (next a s rfl)
  | raises _ _ | running _ => exact first

theorem forEach {f : α → IssueMigrator → Ends β} (dryRun : Bool)
    (step : ∀ x s, s.dryRun = dryRun → Grows P s (f x s).state) (items : List α) :
    ∀ s : IssueMigrator, s.dryRun = dryRun → Grows P s (IssueMigrator.forEach f items s).state := by
  induction items with
  | nil => exact fun s _ => refl P s
  | cons x items ih =>
    intro s flag
    refine (step x s flag).andThen fun _ s' returned => ih s' ?_
    have kept := (step x s flag).1
    rw [returned] at kept
    exact kept.trans flag

end Grows

namespace Calls

theorem returns (P : Request → Prop) (value : α) (self : IssueMigrator) :
    Calls P self (.returns value self) :=
  ⟨.refl P self, by simp⟩

theorem running (P : Request → Prop) (self : IssueMigrator) : Calls P self (.running self : Ends α) :=
  ⟨.refl P self, by simp⟩

theorem mono {e : Ends α} (h : Calls P s₁ e) (weaker : ∀ r, P r → Q r) : Calls Q s₁ e :=
  ⟨h.1.mono weaker, h.2⟩

theorem andThen {e : Ends α} {rest : α → IssueMigrator → Ends β} (first : Calls P s₁ e)
    (next : ∀ a s, e = .returns a s → Calls P s (rest a s)) : Calls P s₁ (e.andThen rest) := by
  cases e with
  | returns a s => exact ⟨first.1.trans (next a s rfl).1, (next a s rfl).2⟩
  | raises _ _ | running _ => exact first

theorem forEach {f : α → IssueMigrator → Ends β} (dryRun : Bool)
    (step : ∀ x s, s.dryRun = dryRun → Calls P s (f x s)) (items : List α) :
    ∀ s : IssueMigrator, s.dryRun = dryRun → Calls P s (IssueMigrator.forEach f items s) := by
  induction items with
  | nil => exact fun s _ => returns P () s
  | cons x items ih =>
    intro s flag
    refine (step x s flag).andThen fun _ s' returned => ih s' ?_
    have kept := (step x s flag).1.grows.1
    rw [returned] at kept
    exact kept.trans flag

end Calls

/-! ## `_make_request` -/

section MakeRequest

variable (net : Network) {request : Request} {depth : Nat} {self : IssueMigrator}

theorem makeRequest_of_not_rateLimited (answer : (net self.session.length request).rateLimited = false) :
    self.makeRequest net request depth = .returns (net self.session.length request).response
      (self.send request (net self.session.length request).passed) := by
  rw [makeRequest.eq_def]
  dsimp only
  cases reply : net self.session.length request with
  | ok body => rfl
  | requestError => rfl
  | httpError code text =>
    rw [reply, Outcome.rateLimited, Bool.and_eq_false_iff] at answer
    dsimp only [Outcome.passed, Outcome.response]
    split_ifs <;> simp_all

theorem makeRequest_zero_of_rateLimited (answer : (net self.session.length request).rateLimited = true) :
    self.makeRequest net request 0 = .raises .recursionError (self.send request false) := by
  obtain ⟨text, reply, limit⟩ := Outcome.eq_of_rateLimited answer
  rw [makeRequest.eq_def]
  simp [reply, limit, Outcome.passed]

theorem makeRequest_succ_of_rateLimited (answer : (net self.session.length request).rateLimited = true) :
    self.makeRequest net request (depth + 1) = (self.send request false).makeRequest net request depth := by
  obtain ⟨text, reply, limit⟩ := Outcome.eq_of_rateLimited answer
  rw [makeRequest.eq_def]
  simp [reply, limit, Outcome.passed]

theorem makeRequest_ok {body : request.Reply} (answer : net self.session.length request = .ok body) :
    self.makeRequest net request depth = .returns (some body) (self.send request true) := by
  rw [makeRequest_of_not_rateLimited net (by rw [answer]; rfl), answer]
  rfl

theorem makeRequest_spec (request : Request) (depth : Nat) (self : IssueMigrator) :
    ∃ attempts, (self.makeRequest net request depth).state =
        { self with session := self.session ++ attempts } ∧
      (∀ a ∈ attempts, a.1 = request) ∧
      (∀ response ∈ (self.makeRequest net request depth).value?,
        response.isSome ↔ (request, true) ∈ attempts) ∧
      ∀ error ∈ (self.makeRequest net request depth).error?, error = .recursionError := by
  cases limited : (net self.session.length request).rateLimited with
  | false =>
    rw [makeRequest_of_not_rateLimited net limited]
    exact ⟨[(request, _)], rfl, by simp, by simp, by simp⟩
  | true =>
    cases depth with
    | zero =>
      rw [makeRequest_zero_of_rateLimited net limited]
      exact ⟨[(request, false)], rfl, by simp, by simp, by simp⟩
    | succ depth =>
      rw [makeRequest_succ_of_rateLimited net limited]
      obtain ⟨attempts, after, same, passed, raised⟩ :=
        makeRequest_spec request depth (self.send request false)
      refine ⟨(request, false) :: attempts, by rw [after]; simp [send], by simpa using same,
        fun response member => by simpa using passed response member, raised⟩
termination_by depth

theorem calls_makeRequest (request : Request) (depth : Nat) (self : IssueMigrator) :
    Calls (· = request) self (self.makeRequest net request depth) := by
  obtain ⟨attempts, after, same, -, raised⟩ := makeRequest_spec net request depth self
  exact ⟨⟨attempts, after, same⟩, raised⟩

end MakeRequest

/-! ## The methods that talk to the API -/

variable (env : Env)

theorem calls_call (request : Request) (self : IssueMigrator) :
    Calls (· = request) self (self.call env request) :=
  calls_makeRequest env.net request _ self

theorem calls_getAllIssuesLoop (repo state : String) :
    ∀ (fuel page : Nat) (issues : List Issue) (self : IssueMigrator),
      Calls (fun r => ∃ page, r = .listIssues repo state page perPage) self
        (getAllIssuesLoop env repo state fuel page issues self)
  | 0, _, _, self => .running _ self
  | fuel + 1, page, issues, self => by
    rw [getAllIssuesLoop]
    refine ((calls_call env _ self).mono fun r e => ⟨page, e⟩).andThen fun response s _ => ?_
    rcases response with _ | _ | ⟨first, rest⟩
    · exact .returns _ _ s
    · exact .returns _ _ s
    · dsimp only
      split_ifs
      · exact .returns _ _ s
      · exact calls_getAllIssuesLoop repo state fuel (page + 1) _ s

theorem calls_getIssueCommentsLoop (repo : String) (issueNumber : Nat) :
    ∀ (fuel page : Nat) (comments : List Comment) (self : IssueMigrator),
      Calls (fun r => ∃ page, r = .listComments repo issueNumber page perPage) self
        (getIssueCommentsLoop env repo issueNumber fuel page comments self)
  | 0, _, _, self => .running _ self
  | fuel + 1, page, comments, self => by
    rw [getIssueCommentsLoop]
    refine ((calls_call env _ self).mono fun r e => ⟨page, e⟩).andThen fun response s _ => ?_
    rcases response with _ | _ | ⟨first, rest⟩
    · exact .returns _ _ s
    · exact .returns _ _ s
    · dsimp only
      split_ifs
      · exact .returns _ _ s
      · exact calls_getIssueCommentsLoop repo issueNumber fuel (page + 1) _ s

theorem calls_getAllIssues (fuel : Nat) (repo state : String) (self : IssueMigrator) :
    Calls (·.method = .GET) self (self.getAllIssues env fuel repo state) :=
  (calls_getAllIssuesLoop env repo state fuel 1 [] self).mono fun r ⟨_, e⟩ => by rw [e]; rfl

theorem calls_getIssueComments (fuel : Nat) (repo : String) (issueNumber : Nat) (self : IssueMigrator) :
    Calls (·.method = .GET) self (self.getIssueComments env fuel repo issueNumber) :=
  (calls_getIssueCommentsLoop env repo issueNumber fuel 1 [] self).mono fun r ⟨_, e⟩ => by rw [e]; rfl

theorem calls_closeIssue (repo : String) (issueNumber : Nat) (self : IssueMigrator) :
    Calls (· = .closeIssue repo issueNumber) self (self.closeIssue env repo issueNumber) := by
  unfold closeIssue
  split_ifs
  · exact .returns _ _ self
  · exact (calls_call env _ self).andThen fun _ s _ => .returns _ _ s

theorem calls_createComment (repo : String) (issueNumber : Nat) (body : String) (self : IssueMigrator) :
    Calls (· = .createComment repo issueNumber body) self (self.createComment env repo issueNumber body) := by
  unfold createComment
  split_ifs
  · exact .returns _ _ self
  · exact (calls_call env _ self).andThen fun _ s _ => .returns _ _ s

theorem closeIssue_of_dryRun {repo : String} {issueNumber : Nat} {self : IssueMigrator}
    (dry : self.dryRun = true) : self.closeIssue env repo issueNumber = .returns true self := by
  simp [closeIssue, dry]

theorem createComment_of_dryRun {repo : String} {issueNumber : Nat} {body : String}
    {self : IssueMigrator} (dry : self.dryRun = true) :
    self.createComment env repo issueNumber body = .returns true self := by
  simp [createComment, dry]

theorem createIssue_of_dryRun {repo title body : String} {labels : List String} {state : String}
    {self : IssueMigrator} (dry : self.dryRun = true) :
    self.createIssue env repo title body labels state =
      .returns (some ⟨0, "https://github.com/" ++ repo ++ "/issues/0"⟩) self := by
  simp [createIssue, dry]

theorem createIssue_spec (repo title body : String) (labels : List String) (state : String)
    (self : IssueMigrator) :
    ∃ attempts, (self.createIssue env repo title body labels state).state =
        { self with session := self.session ++ attempts } ∧
      (∀ a ∈ attempts, self.dryRun = false ∧
        (a.1 = .createIssue repo title body labels ∨ ∃ n, a.1 = .closeIssue repo n)) ∧
      (∀ response ∈ (self.createIssue env repo title body labels state).value?,
        response.isSome ↔ self.dryRun = true ∨ (.createIssue repo title body labels, true) ∈ attempts) ∧
      ∀ error ∈ (self.createIssue env repo title body labels state).error?,
        error = .recursionError := by
  rcases Bool.eq_false_or_eq_true self.dryRun with dry | live
  · rw [createIssue_of_dryRun env dry]
    exact ⟨[], by simp, by simp, by simp [dry], by simp⟩
  obtain ⟨tries, after, same, passed, raised⟩ :=
    makeRequest_spec env.net (.createIssue repo title body labels)
      (env.depth (.createIssue repo title body labels)) self
  have sent : ∀ a ∈ tries, self.dryRun = false ∧
      (a.1 = .createIssue repo title body labels ∨ ∃ n, a.1 = .closeIssue repo n) :=
    fun a m => ⟨live, .inl (same a m)⟩
  unfold createIssue call
  rw [if_neg (ne_of_eq_of_ne live Bool.false_ne_true)]
  generalize self.makeRequest env.net _ _ = creation at after passed raised ⊢
  cases creation with
  | returns response s =>
    simp only [Ends.returns_andThen, Ends.state_returns, Ends.value?_returns] at after passed ⊢
    rcases response with _ | created
    · exact ⟨tries, after, sent, by simpa [live] using passed, by simp⟩
    · have opened : (Request.createIssue repo title body labels, true) ∈ tries := by
        simpa using passed _ rfl
      dsimp only
      split_ifs
      · obtain ⟨⟨closes, closed, closing⟩, failed⟩ := calls_closeIssue env repo created.number s
        have sentAll : ∀ a ∈ tries ++ closes, self.dryRun = false ∧
            (a.1 = .createIssue repo title body labels ∨ ∃ n, a.1 = .closeIssue repo n) := fun a m =>
          (List.mem_append.mp m).elim (sent a) fun m => ⟨live, .inr ⟨_, closing a m⟩⟩
        generalize s.closeIssue env repo created.number = close at closed failed ⊢
        cases close <;> simp only [Ends.returns_andThen, Ends.raises_andThen, Ends.running_andThen,
          Ends.state_returns, Ends.state_raises, Ends.state_running] at closed failed ⊢
        · exact ⟨tries ++ closes, by rw [closed, after]; simp, sentAll, by simp [opened], by simp⟩
        · exact ⟨tries ++ closes, by rw [closed, after]; simp, sentAll, by simp, failed⟩
        · exact ⟨tries ++ closes, by rw [closed, after]; simp, sentAll, by simp, by simp⟩
      · exact ⟨tries, after, sent, by simp [opened], by simp⟩
  | raises error s => exact ⟨tries, after, sent, by simp, raised⟩
  | running s => exact ⟨tries, after, sent, by simp, by simp⟩

theorem calls_ensureLabelsExist (repo : String) (labels : List String) (self : IssueMigrator) :
    Calls (fun r => r = .listLabels repo perPage ∨ self.dryRun = false ∧
        ∃ name, r = .createLabel repo name defaultColor ("Migrated from " ++ sourceRepo))
      self (self.ensureLabelsExist env repo labels) := by
  unfold ensureLabelsExist
  split_ifs
  · exact .returns _ _ self
  · refine ((calls_call env _ self).mono fun r e => .inl e).andThen fun response s listed => ?_
    have kept : s.dryRun = self.dryRun := by
      have := (calls_call env (.listLabels repo perPage) self).1.grows.1
      rwa [listed] at this
    rcases response with _ | existing
    · exact .returns _ _ s
    · refine Calls.forEach self.dryRun (fun name s' flag => ?_) _ s kept
      split_ifs with dry
      · exact .returns _ _ s'
      · exact ((calls_call env _ s').andThen fun _ s'' _ => .returns _ _ s'').mono
          fun r e => .inr ⟨by simpa [flag] using dry, name, e⟩

/-- `migrate_issue`'s own `if labels:` test repeats the one `ensure_labels_exist` starts with. -/
theorem ite_ensureLabelsExist (repo : String) (labels : List String) (self : IssueMigrator) :
    (if labels.isEmpty then .returns () self else self.ensureLabelsExist env repo labels) =
      self.ensureLabelsExist env repo labels := by
  unfold ensureLabelsExist
  split_ifs <;> rfl

end IssueMigrator
end Feagi.Migrate
