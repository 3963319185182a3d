import Bearer.Probe
import Bearer.Proofs.Report.Failures
import Bearer.Proofs.Retry.Outcome

namespace Bearer.Session.Reply

/-- The answer arrives and can be read. -/
def Answers (r : Reply) (response : Http.Response) : Prop :=
  r.outcome = .ok response ∧ ∃ body, response.body = .ok body

/-- There is no answer, or it cannot be read. -/
def FailsWith (r : Reply) (failure : Thrown) : Prop :=
  r.outcome = .error failure ∨ ∃ response, r.outcome = .ok response ∧ response.body = .error failure

theorem Answers.unique {r : Reply} {response response' : Http.Response} (h : r.Answers response)
    (h' : r.Answers response') : response = response' := by
  cases h.1.symm.trans h'.1
  rfl

theorem FailsWith.unique {r : Reply} {failure failure' : Thrown} (h : r.FailsWith failure)
    (h' : r.FailsWith failure') : failure = failure' := by
  rcases h with h | ⟨response, h, hbody⟩ <;> rcases h' with h' | ⟨response', h', hbody'⟩ <;>
    cases h.symm.trans h'
  · rfl
  · cases hbody.symm.trans hbody'
    rfl

theorem Answers.not_failsWith {r : Reply} {response : Http.Response} {failure : Thrown}
    (h : r.Answers response) : ¬ r.FailsWith failure := by
  obtain ⟨h, body, hbody⟩ := h
  rintro (h' | ⟨response', h', hbody'⟩) <;> cases h.symm.trans h'
  cases hbody.symm.trans hbody'

end Bearer.Session.Reply

namespace Bearer.Retry

instance (x y : Double) : Decidable (NotAfter x y) := inferInstanceAs (Decidable (_ ∨ _))

end Bearer.Retry

namespace Bearer.Probe

open Retry

def answer (request : Http.Request) (replies : List Session.Reply) (i : Nat) : Session.Reply :=
  replies[i]?.getD { outcome := .error (Session.unexpected request) }

/-- The answer is there, and read to its end, before the try runs out of time. -/
def InTime (start : Double) (r : Session.Reply) : Prop :=
  r.lost = false ∧
    ∀ ms ∈ r.after, ¬ NotAfter (passed start (Double.ofNat timeout)) (passed start ms)

instance (start : Double) (r : Session.Reply) : Decidable (InTime start r) :=
  inferInstanceAs (Decidable (_ ∧ _))

def finish (start : Double) (r : Session.Reply) : Double :=
  if InTime start r then r.after.elim start (passed start) else passed start (Double.ofNat timeout)

def startOf (request : Http.Request) (replies : List Session.Reply) : Nat → Double
  | 0 => 0
  | i + 1 => passed (finish (startOf request replies i) (answer request replies i))
      (Double.ofNat (min (50 * 2 ^ i) 1000))

/-- The try comes to nothing and is worth another one. -/
def Missed (start : Double) (r : Session.Reply) : Prop :=
  ¬ InTime start r ∨ ∃ failure, r.FailsWith failure ∧ failure.kind? ≠ some .nonRetryable

/-- A metadata server has answered. -/
def Found (start : Double) (r : Session.Reply) : Prop :=
  InTime start r ∧ ∃ response, r.Answers response ∧
    response.headers.find? "Metadata-Flavor" = some "Google"

/-- Something else has answered, or the failure is final. -/
def Dismissed (start : Double) (r : Session.Reply) : Prop :=
  InTime start r ∧
    ((∃ response, r.Answers response ∧
        response.headers.find? "Metadata-Flavor" ≠ some "Google") ∨
      ∃ failure, r.FailsWith failure ∧ failure.kind? = some .nonRetryable)

section
variable {start : Double} {r : Session.Reply}

theorem Found.not_missed (h : Found start r) : ¬ Missed start r := by
  obtain ⟨hin, response, hanswers, -⟩ := h
  rintro (hlate | ⟨failure, hfails, -⟩)
  · exact hlate hin
  · exact hanswers.not_failsWith hfails

theorem Dismissed.not_missed (h : Dismissed start r) : ¬ Missed start r := by
  obtain ⟨hin, ⟨response, hanswers, -⟩ | ⟨failure, hfails, hfinal⟩⟩ := h <;>
    rintro (hlate | ⟨failure', hfails', hmore⟩)
  · exact hlate hin
  · exact hanswers.not_failsWith hfails'
  · exact hlate hin
  · exact hmore (hfails'.unique hfails ▸ hfinal)

theorem Found.not_dismissed (h : Found start r) : ¬ Dismissed start r := by
  obtain ⟨-, response, hanswers, hmark⟩ := h
  rintro ⟨-, ⟨response', hanswers', hnone⟩ | ⟨failure, hfails, -⟩⟩
  · exact hnone (hanswers'.unique hanswers ▸ hmark)
  · exact hanswers.not_failsWith hfails

end

section
variable {request : Http.Request} {replies : List Session.Reply} {logging : Bool}

theorem isMarked_cases (r : Session.Reply) :
    (∃ response, r.Answers response ∧ r.outcome.bind isMarked =
      .ok (decide (response.headers.find? "Metadata-Flavor" = some "Google"))) ∨
    ∃ failure, r.FailsWith failure ∧ r.outcome.bind isMarked = .error failure := by
  cases h : r.outcome with
  | error failure => exact .inr ⟨failure, .inl h, rfl⟩
  | ok response =>
    have hbind : (Except.ok response : Result Http.Response).bind isMarked =
        response.body >>= fun _ =>
          .ok (decide (response.headers.find? "Metadata-Flavor" = some "Google")) := rfl
    rw [hbind]
    cases hbody : response.body with
    | error failure => exact .inr ⟨failure, .inr ⟨response, h, hbody⟩, rfl⟩
    | ok body => exact .inl ⟨response, ⟨h, body, hbody⟩, rfl⟩

theorem behaviour_eq (i : Nat) :
    behaviour request replies i =
      let r := answer request replies i
      if r.lost then .hangs else .ends r.after (r.outcome.bind isMarked) := by
  unfold behaviour answer
  cases replies[i]? <;> rfl

theorem maxRetries_policy : (policy logging).config.maxRetries = Double.ofNat (tries - 1) := by
  simp only [policy, config]

theorem timer_policy : (policy logging).timer = platformTimer := by
  simp only [policy]

theorem limit?_policy : (policy logging).limit? = some (Double.ofNat timeout) := by
  have hlimit : (policy logging).config.timeout = Double.ofNat timeout := by
    simp only [policy, config]
  rw [Policy.limit?, Config.limit?, hlimit, timer_policy, if_pos, Option.map_some,
    platformTimer_ofNat (by decide), if_pos (by decide)]
  rw [Double.ofNat_eq (by decide)]
  decide

/-- The waits between the tries are short enough for a timer. -/
theorem pause_policy (i : Nat) (failure : Thrown) :
    (policy logging).pause ⟨(policy logging).config, i, failure⟩ =
      Double.ofNat (min (50 * 2 ^ i) 1000) := by
  have hpos : 0 < 2 ^ i := Nat.two_pow_pos i
  have hdelay : (policy logging).delay ⟨(policy logging).config, i, failure⟩ =
      Double.ofNat (min (50 * 2 ^ i) 1000) := by
    simp only [policy]
    rfl
  rw [Policy.pause, timer_policy, hdelay, platformTimer_ofNat (by omega), if_pos (by omega)]

/-- A try ends with what comes of its answer, or with its time. -/
theorem endsAt_try {i : Nat} {start time : Double} {late : Bool} {outcome : Result Bool}
    (h : EndsAt (policy logging) i start (behaviour request replies i) time late outcome) :
    let r := answer request replies i
    time = finish start r ∧
      ((InTime start r ∧ outcome = r.outcome.bind isMarked) ∨
        (¬ InTime start r ∧ outcome = .error (overdue (policy logging) i))) := by
  intro r
  have hbehaviour : behaviour request replies i =
      if r.lost then .hangs else .ends r.after (r.outcome.bind isMarked) := behaviour_eq i
  rw [hbehaviour] at h
  cases hlost : r.lost with
  | true =>
    have hlate : ¬ InTime start r := fun hin => Bool.noConfusion (hlost.symm.trans hin.1)
    rw [hlost, if_pos rfl] at h
    cases h with
    | hanging limit hlimit =>
      obtain rfl := Option.some.inj (limit?_policy.symm.trans hlimit)
      exact ⟨(if_neg hlate).symm, .inr ⟨hlate, rfl⟩⟩
  | false =>
    rw [hlost, if_neg Bool.false_ne_true] at h
    cases hafter : r.after with
    | none =>
      have hin : InTime start r := ⟨hlost, by simp [hafter]⟩
      rw [hafter] at h
      cases h with
      | atOnce => exact ⟨by rw [finish, if_pos hin, hafter]; rfl, .inl ⟨hin, rfl⟩⟩
    | some ms =>
      rw [hafter] at h
      cases h with
      | inTime ms outcome h =>
        have hin : InTime start r := ⟨hlost, by simpa [hafter] using h _ limit?_policy⟩
        exact ⟨by rw [finish, if_pos hin, hafter]; rfl, .inl ⟨hin, rfl⟩⟩
      | late ms limit outcome hlimit h =>
        obtain rfl := Option.some.inj (limit?_policy.symm.trans hlimit)
        have hlate : ¬ InTime start r := fun hin => hin.2 ms hafter h
        exact ⟨(if_neg hlate).symm, .inr ⟨hlate, rfl⟩⟩

/-- A try has an answer that can be read, fails as its answer does, or runs out of time. -/
theorem outcome_try {i : Nat} {start time : Double} {late : Bool} {outcome : Result Bool}
    (h : EndsAt (policy logging) i start (behaviour request replies i) time late outcome) :
    let r := answer request replies i
    (∃ response, InTime start r ∧ r.Answers response ∧
      outcome = .ok (decide (response.headers.find? "Metadata-Flavor" = some "Google"))) ∨
    (∃ failure, InTime start r ∧ r.FailsWith failure ∧ outcome = .error failure) ∨
    (¬ InTime start r ∧ outcome = .error (overdue (policy logging) i)) := by
  intro r
  obtain ⟨-, ⟨hin, hanswer⟩ | hlate⟩ := endsAt_try h
  · rcases isMarked_cases r with ⟨response, hanswers, hmark⟩ | ⟨failure, hfails, hfailed⟩
    · exact .inl ⟨response, hin, hanswers, hanswer.trans hmark⟩
    · exact .inr (.inl ⟨failure, hin, hfails, hanswer.trans hfailed⟩)
  · exact .inr (.inr hlate)

/-- If a report of the failure fails, that can be reported. -/
def ToldAtLast (failure : Thrown) : Prop :=
  ∀ fault, Report.ofThrown failure = .error fault → ∃ details, Report.ofThrown fault = .ok details

theorem toldAtLast_of_raised {failure : Thrown}
    (h : ∀ fault ∈ failure.raised, fault.isTellable false = true) : ToldAtLast failure := by
  intro fault hfault
  rcases Report.ofThrown_error hfault with ⟨fault, rfl⟩ | hraised
  · exact Report.ofThrown_ok rfl
  · exact Report.ofThrown_ok (h fault hraised)

theorem conclude_lastFailure {failure : Thrown} (h : logging = true → ToldAtLast failure) :
    (conclude logging (.finished (.error (lastFailure (policy logging) failure).2))).1 =
      .finished (.ok false) := by
  cases logging with
  | false => rfl
  | true =>
    have hlogging : (policy true).logging = true := rfl
    have htells : ∃ entry, Log.warning "failed to detect whether running on compute engine"
        (lastFailure (policy true) failure).2 = .ok entry := by
      rw [lastFailure, if_pos hlogging]
      cases hreport : Report.ofThrown failure with
      | ok details => exact ⟨_, by rw [Log.warning, hreport]; rfl⟩
      | error fault =>
        obtain ⟨details, hdetails⟩ := h rfl fault hreport
        exact ⟨_, by rw [Log.warning, hdetails]; rfl⟩
    obtain ⟨entry, hentry⟩ := htells
    rw [conclude, if_pos rfl, hentry]

/-- When a report of the failure fails with what cannot be reported, the probe fails with what that
report comes to. -/
theorem conclude_untold {failure fault last : Thrown}
    (hfault : Report.ofThrown failure = .error fault)
    (hlast : Report.ofThrown fault = .error last) :
    (conclude true (.finished (.error (lastFailure (policy true) failure).2))).1 =
      .finished (.error last) := by
  have hlogging : (policy true).logging = true := rfl
  have hwarning : Log.warning "failed to detect whether running on compute engine" fault =
      .error last := by rw [Log.warning, hlast]; rfl
  rw [lastFailure, if_pos hlogging, hfault]
  dsimp only
  rw [conclude, if_pos rfl, hwarning]

theorem accepts_policy (i : Nat) (failure : Thrown) :
    (policy logging).accepts ⟨(policy logging).config, i, failure⟩ = true ↔
      failure.kind? ≠ some .nonRetryable := by
  simp only [policy, isRetryable, decide_eq_true_eq]

/-- A try that fails is worth another one unless its failure is final. -/
theorem failed_try {i : Nat} {start time : Double} {late : Bool} {failure : Thrown}
    (h : EndsAt (policy logging) i start (behaviour request replies i) time late
      (.error failure)) :
    if failure.kind? = some .nonRetryable then Dismissed start (answer request replies i)
    else Missed start (answer request replies i) := by
  rcases outcome_try h with ⟨response, -, -, hvalue⟩ | ⟨failure', hin, hfails, hfailure⟩ |
    ⟨hlate, hfailure⟩
  · cases hvalue
  · cases hfailure
    split
    · next hfinal => exact ⟨hin, .inr ⟨failure, hfails, hfinal⟩⟩
    · next hmore => exact .inr ⟨failure, hfails, hmore⟩
  · cases hfailure
    exact .inl hlate

/-- How the tries come to an end: with one that is decided, or with the last one there may be. -/
inductive Decides (n : Nat) (start : Double) (r : Session.Reply) : Bool → Prop
  | found (h : Found start r) : Decides n start r true
  | dismissed (h : Dismissed start r) : Decides n start r false
  | missed (h : Missed start r) (hlast : n + 1 = tries) : Decides n start r false

/-- The outcome of the tries: what the last one has found, or its failure as far as the log can
tell it. -/
inductive Comes (logging : Bool) (n : Nat) (start : Double) (r : Session.Reply) :
    Bool → Ended Bool → Prop
  | value (found : Bool) (h : ∃ response, r.Answers response) :
      Comes logging n start r found (.finished (.ok found))
  | failure (failure : Thrown)
      (h : r.FailsWith failure ∨ ¬ InTime start r ∧ failure = overdue (policy logging) n) :
      Comes logging n start r false (.finished (.error (lastFailure (policy logging) failure).2))

theorem isLast_iff {i : Nat} (hi : i < tries) :
    (policy logging).config.maxRetries.le (Double.ofNat i) = true ↔ i + 1 = tries := by
  have htries : tries = 3 := rfl
  rw [le_ofNat_iff maxRetries_policy (by decide) (by omega)]
  omega

/-- A try fails as its answer does, or because its time is over. -/
theorem failure_try {i : Nat} {start time : Double} {late : Bool} {failure : Thrown}
    (h : EndsAt (policy logging) i start (behaviour request replies i) time late
      (.error failure)) :
    (answer request replies i).FailsWith failure ∨
      ¬ InTime start (answer request replies i) ∧ failure = overdue (policy logging) i := by
  rcases outcome_try h with ⟨response, -, -, hvalue⟩ | ⟨failure', -, hfails, hfailure⟩ |
    ⟨hlate, hfailure⟩
  · cases hvalue
  · cases hfailure
    exact .inl hfails
  · cases hfailure
    exact .inr ⟨hlate, rfl⟩

theorem answers_value {i : Nat} {start time : Double} {late found : Bool}
    (h : EndsAt (policy logging) i start (behaviour request replies i) time late (.ok found)) :
    ∃ response, (answer request replies i).Answers response := by
  rcases outcome_try h with ⟨response, -, hanswers, -⟩ | ⟨failure, -, -, hfailure⟩ |
    ⟨-, hfailure⟩
  · exact ⟨response, hanswers⟩
  · cases hfailure
  · cases hfailure

/-- A try that comes to something decides. -/
theorem decides_value {i : Nat} {start time : Double} {late found : Bool}
    (h : EndsAt (policy logging) i start (behaviour request replies i) time late (.ok found)) :
    Decides i start (answer request replies i) found := by
  rcases outcome_try h with ⟨response, hin, hanswers, hvalue⟩ | ⟨failure, -, -, hfailure⟩ |
    ⟨-, hfailure⟩
  · cases hvalue
    by_cases hgoogle : response.headers.find? "Metadata-Flavor" = some "Google"
    · rw [decide_eq_true hgoogle]
      exact .found ⟨hin, response, hanswers, hgoogle⟩
    · rw [decide_eq_false hgoogle]
      exact .dismissed ⟨hin, .inl ⟨response, hanswers, hgoogle⟩⟩
  · cases hfailure
  · cases hfailure

/-- So does one that fails, if there is no other try. -/
theorem decides_failure {i : Nat} {start time : Double} {late : Bool} {failure : Thrown}
    (hi : i < tries)
    (h : EndsAt (policy logging) i start (behaviour request replies i) time late (.error failure))
    (hstop : (policy logging).config.maxRetries.le (Double.ofNat i) = true ∨
      (policy logging).accepts ⟨(policy logging).config, i, failure⟩ = false) :
    Decides i start (answer request replies i) false := by
  have hfailed := failed_try h
  split at hfailed
  · exact .dismissed hfailed
  · next hmore =>
    rcases hstop with hmost | hdeclined
    · exact .missed hfailed ((isLast_iff hi).mp hmost)
    · rw [(accepts_policy i failure).mpr hmore] at hdeclined
      cases hdeclined

/-- From one try on, up to the one that decides. -/
theorem course_decides {i : Nat} {start now : Double} {calls : List Call} {ended : Ended Bool}
    (h : Course (policy logging) (behaviour request replies) i start calls now ended)
    (hi : i < tries) (hstart : start = startOf request replies i) :
    ∃ n found, n < tries ∧ calls.length + i = n + 1 ∧
      (∀ j, i ≤ j → j < n → Missed (startOf request replies j) (answer request replies j)) ∧
      Decides n (startOf request replies n) (answer request replies n) found ∧
      Comes logging n (startOf request replies n) (answer request replies n) found ended := by
  -- Each missed try moves the start on; the try that stops the course is the one that decides.
  induction h with
  | endless hlimit => cases limit?_policy.symm.trans hlimit
  | @value i start time late found hends =>
    subst hstart
    exact ⟨i, found, hi, Nat.add_comm .., fun j _ _ => by omega, decides_value hends,
      .value found (answers_value hends)⟩
  | @stopped i start time late failure hends hstop =>
    subst hstart
    exact ⟨i, false, hi, Nat.add_comm .., fun j _ _ => by omega, decides_failure hi hends hstop,
      .failure failure (failure_try hends)⟩
  | @again i start time now late failure calls ended hends hmore haccepts hrest ih =>
    subst hstart
    have hfailed := failed_try hends
    rw [if_neg ((accepts_policy i failure).mp haccepts)] at hfailed
    have hnext : i + 1 < tries := by
      have hne : i + 1 ≠ tries := fun h => by
        rw [(isLast_iff hi).mpr h] at hmore
        cases hmore
      omega
    obtain ⟨n, found, hn, hlength, hmissed, hdecides, hended⟩ := ih hnext (by
      rw [(endsAt_try hends).1, pause_policy]
      rfl)
    refine ⟨n, found, hn, ?_, fun j hj hjn => ?_, hdecides, hended⟩
    · rw [List.length_cons]
      omega
    · rcases Nat.eq_or_lt_of_le hj with rfl | hj
      · exact hfailed
      · exact hmissed j hj hjn

end

/-- Whatever becomes of the report of a failure, no metadata server has been found. -/
theorem Comes.found_eq {logging found : Bool} {n : Nat} {start : Double} {r : Session.Reply}
    {ended : Ended Bool} (h : Comes logging n start r found ended) {report : Report}
    (hreport : report.ended = (conclude logging ended).1) : report.found = found := by
  cases h with
  | value =>
    have hvalue : report.ended = .finished (.ok found) := hreport
    rw [Report.found, hvalue]
  | failure failure =>
    rw [Report.found, hreport, conclude]
    cases logging with
    | false => rfl
    | true =>
      rw [if_pos rfl]
      cases Log.warning "failed to detect whether running on compute engine"
        (lastFailure (policy true) failure).2 <;> rfl

/-- The result stands if the failures of the tries can be told at last. -/
theorem Comes.conclude_eq {logging found : Bool} {n : Nat} {start : Double} {r : Session.Reply}
    {ended : Ended Bool} (h : Comes logging n start r found ended)
    (htold : logging = true → ∀ failure, r.FailsWith failure → ToldAtLast failure) :
    (conclude logging ended).1 = .finished (.ok found) := by
  cases h with
  | value => rfl
  | failure failure hfailure =>
    refine conclude_lastFailure fun hlogging => ?_
    rcases hfailure with hfails | ⟨-, rfl⟩
    · exact htold hlogging failure hfails
    · exact toldAtLast_of_raised nofun

/-- The requests of a probe, and what has decided it. -/
theorem run_decides {e : Environment} (he : e.skipsProbe = false) (replies : List Session.Reply)
    (logging : Bool) :
    let report := run e replies logging
    let request := ComputeEngine.request e.metadataServer
    ∃ n found, n < tries ∧ report.requests = List.replicate (n + 1) request ∧
      (∀ j < n, Missed (startOf request replies j) (answer request replies j)) ∧
      Decides n (startOf request replies n) (answer request replies n) found ∧
      ∃ ended, Comes logging n (startOf request replies n) (answer request replies n) found ended ∧
        report.ended = (conclude logging ended).1 := by
  intro report request
  have hfuel : tries - 1 < mostAttempts (policy logging).config + 0 := by
    rw [mostAttempts_eq (by decide) maxRetries_policy]
    omega
  obtain ⟨calls, hcalls, hcourse⟩ := @attempts_course Bool (policy logging)
    (behaviour request replies) _ maxRetries_policy (by decide) _ 0 hfuel (Nat.zero_le _) {}
  obtain ⟨n, found, hn, hlength, hmissed, hdecides, hcomes⟩ :=
    course_decides hcourse (by decide) rfl
  have hrun : report = run e replies logging := rfl
  rw [run, if_neg (by simp [he])] at hrun
  rw [hrun]
  refine ⟨n, found, hn, ?_, fun j => hmissed j (Nat.zero_le j), hdecides, _, hcomes, ?_⟩
  · have hmade : (Retry.run (policy logging) (behaviour request replies) none).2.calls = calls :=
      hcalls
    show (Retry.run (policy logging) (behaviour request replies) none).2.calls.map
      (fun _ => request) = _
    rw [hmade, List.map_const', ← hlength, Nat.add_zero]
  · rfl

/-- The first try that is not missed is the one that decides. -/
theorem run_decided_by {e : Environment} (he : e.skipsProbe = false) {replies : List Session.Reply}
    {logging : Bool} {i : Nat} (hi : i < tries) :
    let report := run e replies logging
    let request := ComputeEngine.request e.metadataServer
    (∀ j < i, Missed (startOf request replies j) (answer request replies j)) →
    ¬ Missed (startOf request replies i) (answer request replies i) →
    report.requests.length = i + 1 ∧
      Decides i (startOf request replies i) (answer request replies i) report.found := by
  intro report request hbefore hnot
  obtain ⟨n, found, hn, hrequests, hmissed, hdecides, ended, hcomes, hended⟩ :=
    run_decides he replies logging
  have hfirst : i = n := by
    rcases Nat.lt_trichotomy i n with hlt | heq | hgt
    · exact absurd (hmissed i hlt) hnot
    · exact heq
    · have hn' := hbefore n hgt
      cases hdecides with
      | found h => exact absurd hn' h.not_missed
      | dismissed h => exact absurd hn' h.not_missed
      | missed _ hlast => omega
  subst hfirst
  exact ⟨by rw [hrequests, List.length_replicate], hcomes.found_eq hended ▸ hdecides⟩

theorem found_first {e : Environment} (he : e.skipsProbe = false) {replies : List Session.Reply}
    {logging : Bool} {i : Nat} (hi : i < tries) :
    let report := run e replies logging
    let request := ComputeEngine.request e.metadataServer
    (∀ j < i, Missed (startOf request replies j) (answer request replies j)) →
    Found (startOf request replies i) (answer request replies i) →
    report.found = true ∧ report.requests.length = i + 1 := by
  intro report request hbefore h
  obtain ⟨hlength, hdecides⟩ := run_decided_by he hi hbefore h.not_missed
  refine ⟨?_, hlength⟩
  generalize report.found = found at hdecides
  cases hdecides with
  | found => rfl
  | dismissed h' => exact absurd h' h.not_dismissed
  | missed h' => exact absurd h' h.not_missed

theorem dismissed_first {e : Environment} (he : e.skipsProbe = false)
    {replies : List Session.Reply} {logging : Bool} {i : Nat} (hi : i < tries) :
    let report := run e replies logging
    let request := ComputeEngine.request e.metadataServer
    (∀ j < i, Missed (startOf request replies j) (answer request replies j)) →
    Dismissed (startOf request replies i) (answer request replies i) →
    report.found = false ∧ report.requests.length = i + 1 := by
  intro report request hbefore h
  obtain ⟨hlength, hdecides⟩ := run_decided_by he hi hbefore h.not_missed
  refine ⟨?_, hlength⟩
  generalize report.found = found at hdecides
  cases hdecides with
  | found h' => exact absurd h h'.not_dismissed
  | dismissed => rfl
  | missed h' => exact absurd h' h.not_missed

theorem notAfter_ofNat {a b : Nat} (ha : a < 2 ^ 53) (hb : b < 2 ^ 53) :
    NotAfter (Double.ofNat a) (Double.ofNat b) ↔ a ≤ b := by
  rw [NotAfter, Double.ofNat_eq ha, Double.ofNat_eq hb]
  simp [Double.lt]
  omega

/-- The answer takes a whole number of milliseconds, if any time at all. -/
def Timed (r : Session.Reply) : Prop :=
  ∀ ms ∈ r.after, ∃ k : Nat, k < 2 ^ 52 ∧ ms = Double.ofNat k

theorem inTime_whole {n : Nat} (hn : n < 2 ^ 52) {r : Session.Reply} (hr : Timed r) :
    InTime (Double.ofNat n) r ↔
      r.lost = false ∧ ∀ k : Nat, k < 2 ^ 52 → r.after = some (Double.ofNat k) → k < 500 := by
  have hlate (k : Nat) (hk : k < 2 ^ 52) :
      NotAfter (passed (Double.ofNat n) (Double.ofNat timeout))
        (passed (Double.ofNat n) (Double.ofNat k)) ↔ 500 ≤ k := by
    have htimeout : timeout = 500 := rfl
    rw [passed_whole (by omega), passed_whole (by omega), notAfter_ofNat (by omega) (by omega)]
    omega
  refine and_congr_right fun _ => ⟨fun h k hk hafter => ?_, fun h ms hms => ?_⟩
  · have := h _ hafter
    rw [hlate k hk] at this
    omega
  · obtain ⟨k, hk, rfl⟩ := hr ms hms
    have := h k hk hms
    rw [hlate k hk]
    omega

/-- When all answers before take whole milliseconds, a try starts on a whole one. -/
theorem startOf_whole {request : Http.Request} {replies : List Session.Reply} {i : Nat}
    (hi : i ≤ tries) (hr : ∀ j < i, Timed (answer request replies j)) :
    ∃ n ≤ 1500 * i, startOf request replies i = Double.ofNat n := by
  induction i with
  | zero => exact ⟨0, Nat.le_refl 0, rfl⟩
  | succ i ih =>
    have htries : tries = 3 := rfl
    obtain ⟨n, hn, hstart⟩ := ih (by omega) fun j hj => hr j (by omega)
    obtain ⟨m, hm, hfinish⟩ : ∃ m ≤ n + 500,
        finish (Double.ofNat n) (answer request replies i) = Double.ofNat m := by
      unfold finish
      split
      · next hin =>
        cases hafter : (answer request replies i).after with
        | none => exact ⟨n, by omega, rfl⟩
        | some ms =>
          obtain ⟨k, hk, rfl⟩ := hr i (by omega) ms hafter
          have hless := ((inTime_whole (by omega) (hr i (by omega))).mp hin).2 k hk hafter
          exact ⟨n + k, by omega, passed_whole (by omega)⟩
      · have htimeout : timeout = 500 := rfl
        exact ⟨n + 500, Nat.le_refl _, passed_whole (by omega)⟩
    refine ⟨m + min (50 * 2 ^ i) 1000, by omega, ?_⟩
    rw [startOf, hstart, hfinish, passed_whole (by omega)]

/-- The probe has a result, after three requests at most, if what the reports of the failures fail
with can be told. A metadata server is found if one answers a try in time, and all tries before
failed or ran out of time; any other answer that is read in time and a final failure end the
probe. -/
theorem probe_decided {e : Environment} (he : e.skipsProbe = false) (replies : List Session.Reply)
    (logging : Bool) :
    let report := run e replies logging
    let request := ComputeEngine.request e.metadataServer
    let start := startOf request replies
    let reply := answer request replies
    ((logging = true → ∀ i < 3, ∀ failure, (reply i).FailsWith failure → ToldAtLast failure) →
      ∃ found, report.ended = .finished (.ok found)) ∧
    (∀ failure : Thrown, (∀ fault ∈ failure.raised, fault.isTellable false = true) →
      ToldAtLast failure) ∧
    (report.requests.length ≤ 3 ∧ ∀ r ∈ report.requests, r = request) ∧
    (report.found = true ↔
      ∃ i < 3, (∀ j < i, Missed (start j) (reply j)) ∧ Found (start i) (reply i)) ∧
    (∀ i < 3, (∀ j < i, Missed (start j) (reply j)) →
      (Found (start i) (reply i) → report.requests.length = i + 1) ∧
      (Dismissed (start i) (reply i) →
        report.found = false ∧ report.requests.length = i + 1)) ∧
    ∀ i < 3, (∀ j ≤ i, Timed (reply j)) →
      (InTime (start i) (reply i) ↔ (reply i).lost = false ∧
        ∀ k : Nat, k < 2 ^ 52 → (reply i).after = some (Double.ofNat k) → k < 500) := by
  intro report request start reply
  obtain ⟨n, found, hn, hrequests, hmissed, hdecides, ended, hcomes, hended⟩ :=
    run_decides he replies logging
  have hfound : report.found = found := hcomes.found_eq hended
  have hlength : report.requests.length = n + 1 := by rw [hrequests, List.length_replicate]
  refine ⟨fun htold => ⟨found, ?_⟩, fun _ => toldAtLast_of_raised, ?_,
    ⟨fun h => ?_, fun ⟨i, hi, hbefore, h⟩ => (found_first he hi hbefore h).1⟩,
    fun i hi hbefore => ⟨fun h => (found_first he hi hbefore h).2, dismissed_first he hi hbefore⟩,
    fun i hi hwhole => ?_⟩
  · rw [hended]
    exact hcomes.conclude_eq fun hlogging => htold hlogging n hn
  · rw [hlength, hrequests]
    exact ⟨hn, fun r => List.eq_of_mem_replicate⟩
  · obtain rfl := hfound.symm.trans h
    cases hdecides with
    | found h => exact ⟨n, hn, hmissed, h⟩
  · obtain ⟨n, hn, hstart⟩ := @startOf_whole request replies i (Nat.le_of_lt hi)
      fun j hj => hwhole j (Nat.le_of_lt hj)
    show InTime (startOf request replies i) (reply i) ↔ _
    rw [hstart]
    exact inTime_whole (by omega) (hwhole i (Nat.le_refl i))

def marked : Session.Reply :=
  { outcome := .ok { status := 200, headers := [("Metadata-Flavor", "Google")], body := .ok "" } }

theorem marked_found (start : Double) : Found start marked := by
  refine ⟨⟨rfl, nofun⟩, _, ⟨rfl, _, rfl⟩, ?_⟩
  have hmark : Http.Headers.strip "Google" = "Google" := by decide
  exact (Http.Headers.find?_single _ _).trans (congrArg some hmark)

/-- A metadata server that fails at first, then hangs, and then answers. -/
def reluctant : List Session.Reply :=
  [{ outcome := .error (.object none [("count", .bigint 1)]) },
   { outcome := .error .undefined, lost := true }, marked]

theorem reluctant_missed (request : Http.Request) (start : Double) {j : Nat} (hj : j < 2) :
    Missed start (answer request reluctant j) := by
  match j with
  | 0 => exact .inr ⟨.object none [("count", .bigint 1)], .inl rfl, by decide⟩
  | 1 => exact .inl fun h => Bool.noConfusion h.1

theorem reluctant_toldAtLast (request : Http.Request) {i : Nat} (hi : i < 3) {failure : Thrown}
    (h : (answer request reluctant i).FailsWith failure) : ToldAtLast failure := by
  refine toldAtLast_of_raised ?_
  match i with
  | 0 =>
    have hfirst : (answer request reluctant 0).FailsWith (.object none [("count", .bigint 1)]) :=
      .inl rfl
    obtain rfl := h.unique hfirst
    nofun
  | 1 =>
    have hsecond : (answer request reluctant 1).FailsWith .undefined := .inl rfl
    obtain rfl := h.unique hsecond
    nofun
  | 2 =>
    obtain ⟨-, response, hanswers, -⟩ := marked_found 0
    exact absurd h hanswers.not_failsWith

theorem probe_decided_reluctant :
    ({} : Environment).skipsProbe = false ∧
      (run {} reluctant true).ended = .finished (.ok true) := by
  have he : ({} : Environment).skipsProbe = false := rfl
  obtain ⟨hresult, -, -, hfound, -⟩ := probe_decided he reluctant true
  obtain ⟨found, hended⟩ := hresult fun _ i hi _ => reluctant_toldAtLast _ hi
  have htrue := hfound.mpr
    ⟨2, by decide, fun j hj => reluctant_missed _ _ hj, marked_found _⟩
  rw [Report.found, hended] at htrue
  exact ⟨he, by rw [hended]; exact congrArg _ (congrArg _ htrue)⟩

/-- An answer that cannot be read, before that of a metadata server. -/
def unreadable : List Session.Reply :=
  [{ outcome := .ok { status := 200, headers := [], body := .error (.plain .plain "reset") } },
   marked]

/-- An object that fails to write itself, with what no text can hold. -/
def untold : Thrown :=
  .object none [("toJSON", .function "" (some (.object none [("count", .bigint 1)])))]

/-- An answer without the mark does not end the probe if it cannot be read; and the probe fails
when what a report of a failure fails with cannot be reported either. -/
theorem unreadable_answer_tried_again :
    (run {} unreadable true).found = true ∧ (run {} unreadable true).requests.length = 2 ∧
    (run {} (List.replicate 3 { outcome := .error untold }) true).ended =
      .finished (.error (.platform .bigInteger)) := by
  have he : ({} : Environment).skipsProbe = false := rfl
  refine and_assoc.mp ⟨found_first he (i := 1) (by decide) (fun j hj => ?_) (marked_found _), ?_⟩
  · obtain rfl : j = 0 := by omega
    exact .inr ⟨.plain .plain "reset", .inr ⟨_, rfl, rfl⟩, by decide⟩
  · let request := ComputeEngine.request ({} : Environment).metadataServer
    let replies : List Session.Reply := List.replicate 3 { outcome := .error untold }
    have hreply (i : Nat) (hi : i < 3) :
        answer request replies i = { outcome := .error untold } := by
      rw [answer, List.getElem?_replicate_of_lt hi]
      rfl
    obtain ⟨n, found, hn, -, -, -, ended, hcomes, hended⟩ := run_decides he replies true
    rw [hreply n hn] at hcomes
    have hfails : Session.Reply.FailsWith { outcome := .error untold } untold := .inl rfl
    rw [hended]
    cases hcomes with
    | value _ h =>
      obtain ⟨response, hanswers⟩ := h
      exact absurd hfails hanswers.not_failsWith
    | failure failure h =>
      rcases h with h | ⟨hlate, -⟩
      · rw [h.unique hfails]
        exact conclude_untold rfl rfl
      · exact absurd ⟨rfl, nofun⟩ hlate

end Bearer.Probe
