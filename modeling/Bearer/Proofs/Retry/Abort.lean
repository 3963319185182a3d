import Bearer.Proofs.Retry.Outcome
import Bearer.Proofs.Session.Steps

namespace Bearer

namespace Retry

theorem le_zero_passed {x : Double} (h : (0 : Double).le x = true) (ms : Double) :
    (0 : Double).le (passed x ms) = true := by
  unfold passed
  split
  · next hlt => exact Double.le_zero_add h hlt
  · exact h

namespace Moment
variable {a b c : Moment}

/-- A moment that a run can come to: no time before the start, and a time at all. -/
def Counted (m : Moment) : Prop := (0 : Double).le m.time = true

theorem Counted.later (h : a.Counted) (ms : Double) (serial : Nat) : (a.later ms serial).Counted :=
  le_zero_passed h ms

theorem before_irrefl (a : Moment) : a.before a = false := by
  simp [before, Double.lt_irrefl]

theorem before_asymm (h : a.before b = true) : b.before a = false := by
  simp only [before, Bool.or_eq_true, Bool.and_eq_true, decide_eq_true_eq] at h
  rw [← Bool.not_eq_true]
  simp only [before, Bool.or_eq_true, Bool.and_eq_true, decide_eq_true_eq]
  rintro (hlt | ⟨heq, hserial⟩) <;> rcases h with hlt' | ⟨heq', hserial'⟩
  · have hself := Double.lt_trans hlt hlt'
    rw [Double.lt_irrefl] at hself
    cases hself
  · rw [heq', Double.lt_irrefl] at hlt
    cases hlt
  · rw [heq, Double.lt_irrefl] at hlt'
    cases hlt'
  · omega

theorem Counted.of_before (ha : a.Counted) (h : a.before b = true) : b.Counted := by
  simp only [before, Bool.or_eq_true, Bool.and_eq_true, decide_eq_true_eq] at h
  unfold Counted at ha ⊢
  rcases h with hlt | ⟨heq, -⟩
  · have hzero : (0 : Double) = .finite 0 := rfl
    rw [hzero] at ha ⊢
    cases hx : a.time <;> cases hy : b.time <;> rw [hx] at ha hlt <;> rw [hy] at hlt <;>
      simp_all [Double.le, Double.lt]
    exact ha.trans hlt.le
  · rwa [← heq]

theorem Counted.total (ha : a.Counted) (hb : b.Counted) (h : a.before b = false)
    (h' : b.before a = false) : a = b := by
  have hnan {m : Moment} (hm : m.Counted) : m.time ≠ .nan := by
    intro htime
    rw [Counted, htime] at hm
    cases hm
  simp only [before, Bool.or_eq_false_iff, Bool.and_eq_false_iff, decide_eq_false_iff_not] at h h'
  obtain ⟨atime, aserial⟩ := a
  obtain ⟨btime, bserial⟩ := b
  -- Neither is earlier, so the times are the same, and the serial numbers decide.
  rcases Double.lt_or_eq_or_gt (hnan ha) (hnan hb) with hlt | heq | hgt
  · rw [h.1] at hlt
    cases hlt
  · have hserial := h.2.resolve_left (fun hne => hne heq)
    have hserial' := h'.2.resolve_left (fun hne => hne heq.symm)
    dsimp only at hserial hserial'
    obtain rfl : aserial = bserial := by omega
    exact congrArg (Moment.mk · aserial) heq
  · rw [h'.1] at hgt
    cases hgt

end Moment

section
variable {α : Type} {policy : Policy} {behaviour : Nat → Behaviour α} {abort : Option Abort}

/-- An attempt ends in one way only. -/
theorem EndsUnder.unique {i serial : Nat} {start : Moment} {b : Behaviour α} {e e' : End α}
    (h : EndsUnder policy abort i serial start b e)
    (h' : EndsUnder policy abort i serial start b e') : e = e' := by
  let p : Progress := { now := start, serial }
  have hends : endOf policy (fun _ => b) abort p i = some e := endOf_of_endsUnder h
  exact Option.some.inj (hends.symm.trans (endOf_of_endsUnder (p := p) h'))

/-- When a wait is over that is due at some moment: the abort may come first. -/
def resumed (abort : Option Abort) (moment due : Moment) : Moment :=
  match pending? abort moment with
  | some at_ => if at_.before due then at_ else due
  | none => due

theorem pending?_of_not_aborted {a : Abort} {m : Moment} (h : isAborted (some a) m = false) :
    ∃ at_, a.moment? = some at_ ∧ m.before at_ = true ∧ pending? (some a) m = some at_ := by
  obtain ⟨moment?, reason⟩ := a
  cases moment? with
  | none => cases h
  | some at_ =>
    have hbefore : m.before at_ = true := by simpa [isAborted] using h
    exact ⟨at_, rfl, hbefore, by simp [pending?, hbefore]⟩

theorem resumed_of_not_aborted {m due : Moment} (h : isAborted abort due = false) :
    resumed abort m due = due := by
  unfold resumed
  cases hp : pending? abort m with
  | none => rfl
  | some at_ =>
    cases abort with
    | none => cases hp
    | some a =>
      obtain ⟨at', hat', hbefore, -⟩ := pending?_of_not_aborted h
      have hat : a.moment? = some at_ := by
        simp only [pending?, Option.bind_some, Option.filter_eq_some_iff] at hp
        exact hp.1
      cases hat.symm.trans hat'
      simp [Moment.before_asymm hbefore]

/-- A wait during which the abort comes is over at the abort. -/
theorem resumed_of_aborted {m due : Moment} (hcounted : m.Counted) (hdue : due.Counted)
    (hm : isAborted abort m = false) (h : isAborted abort due = true) :
    isAborted abort (resumed abort m due) = true ∧
      ∃ a ∈ abort, a.moment? = some (resumed abort m due) := by
  cases abort with
  | none => cases h
  | some a =>
    obtain ⟨at_, hat, hbefore, hp⟩ := pending?_of_not_aborted hm
    have hresumed : resumed (some a) m due = at_ := by
      rw [resumed, hp]
      dsimp only
      split
      · rfl
      · next hnot =>
        have hnot' : due.before at_ = false := by simpa [isAborted, hat] using h
        exact hdue.total (hcounted.of_before hbefore) hnot' (by simpa using hnot)
    rw [hresumed]
    exact ⟨by simp [isAborted, hat, Moment.before_irrefl], a, rfl, hat⟩

theorem Moment.Counted.resumed {m due : Moment} (hm : m.Counted) (hdue : due.Counted) :
    (resumed abort m due).Counted := by
  unfold Retry.resumed
  cases hp : pending? abort m with
  | none => exact hdue
  | some at_ =>
    dsimp only
    split
    · have hbefore : m.before at_ = true := by
        simp only [pending?, Option.filter_eq_some_iff] at hp
        exact hp.2
      exact hm.of_before hbefore
    · exact hdue

theorem EndsUnder.counted {i serial : Nat} {start : Moment} {b : Behaviour α} {e : End α}
    (h : EndsUnder policy abort i serial start b e) (hstart : start.Counted) :
    e.moment.Counted := by
  cases h with
  | atOnce => exact hstart
  | inTime => exact hstart.later ..
  | late => exact hstart.later ..
  | hanging => exact hstart.later ..
  | heeding failure at_ hp =>
    simp only [pending?, Option.filter_eq_some_iff] at hp
    exact hstart.of_before hp.2
  | unheeded => exact hstart.later ..

variable (policy behaviour abort)

/-- What the caller is told of an outcome. -/
def told (outcome : Result α) : Result α :=
  outcome.mapError fun failure => (lastFailure policy failure).2

@[simp] theorem told_ok (a : α) : told policy (.ok a) = .ok a := rfl

@[simp] theorem told_error (failure : Thrown) :
    told policy (.error failure : Result α) = .error (lastFailure policy failure).2 := rfl

def Interrupted (ended : Ended α) : Prop :=
  ∃ a ∈ abort, ended = .finished (.error
    (.because .nonRetryable (policy.config.name ++ " aborted") a.reason))

/-- Nothing follows an attempt that ends like this: it has succeeded, or it may not be followed, or
the abort has come. -/
def Final (i : Nat) (e : End α) : Prop :=
  (∃ a, e.outcome = .ok a) ∨ policy.config.maxRetries.le (Double.ofNat i) = true ∨
    isAborted abort e.moment = true ∨
    ∃ failure, e.outcome = .error failure ∧ policy.accepts ⟨policy.config, i, failure⟩ = false

variable {policy abort} in
theorem Final.of_aborted {i : Nat} {e : End α} (h : isAborted abort e.moment = true) :
    Final policy abort i e := .inr (.inr (.inl h))

variable {policy abort} in
theorem not_final {i : Nat} {e : End α} {failure : Thrown} (hfailed : e.outcome = .error failure)
    (hfewer : policy.config.maxRetries.le (Double.ofNat i) = false)
    (hnot : isAborted abort e.moment = false)
    (haccepts : policy.accepts ⟨policy.config, i, failure⟩ = true) : ¬ Final policy abort i e := by
  rintro (⟨a, ha⟩ | hle | habort | ⟨failure', hfailed', hdeclined⟩)
  · cases hfailed.symm.trans ha
  · cases hfewer.symm.trans hle
  · cases hnot.symm.trans habort
  · cases hfailed.symm.trans hfailed'
    cases haccepts.symm.trans hdeclined

/-- When the next attempt is due. -/
def dueAfter (i : Nat) (e : End α) (failure : Thrown) : Moment :=
  e.moment.later (policy.timer (policy.delay ⟨policy.config, i, failure⟩)) (3 * i + 4)

/-- What becomes of an attempt that is due: whether it starts, and where that leads to. -/
inductive Next (i : Nat) (start : Moment) : List Moment → Ended α × Moment ⊕ Moment → Prop
  | refused {ended : Ended α} (h : isAborted abort start = true)
      (hended : Interrupted policy abort ended) : Next i start [] (.inl (ended, start))
  | endless (hstart : isAborted abort start = false)
      (h : ∀ e, ¬ EndsUnder policy abort i (3 * i + 2) start (behaviour i) e) :
      Next i start [start] (.inl (.never, start))
  | last {e : End α} (hstart : isAborted abort start = false)
      (h : EndsUnder policy abort i (3 * i + 2) start (behaviour i) e)
      (hfinal : Final policy abort i e) :
      Next i start [start] (.inl (.finished (told policy e.outcome), e.moment))
  | again {e : End α} {failure : Thrown} (hstart : isAborted abort start = false)
      (h : EndsUnder policy abort i (3 * i + 2) start (behaviour i) e)
      (hfailed : e.outcome = .error failure) (hmore : ¬ Final policy abort i e) :
      Next i start [start] (.inr (resumed abort e.moment (dueAfter policy i e failure)))

/-- The attempts from one on: the moments at which they start, when the run ends, and how. -/
inductive Trail : Nat → Nat → Moment → List Moment → Moment → Ended α → Prop
  | spent {i : Nat} {start : Moment} : Trail 0 i start [] start .never
  | ends {bound i : Nat} {start now : Moment} {starts : List Moment} {ended : Ended α}
      (h : Next policy behaviour abort i start starts (.inl (ended, now))) :
      Trail (bound + 1) i start starts now ended
  | goes {bound i : Nat} {start next now : Moment} {starts : List Moment} {ended : Ended α}
      (h : Next policy behaviour abort i start [start] (.inr next))
      (hrest : Trail bound (i + 1) next starts now ended) :
      Trail (bound + 1) i start (start :: starts) now ended

variable {policy behaviour abort}

theorem attempts_of_aborted {p : Progress} (h : isAborted abort p.now = true) (i : Nat) :
    ∃ ended q, Interrupted policy abort ended ∧ q.calls = p.calls ∧ q.now = p.now ∧
      ∀ bound, attempts policy behaviour abort (bound + 1) i p = (ended, q) := by
  cases abort with
  | none => cases h
  | some a =>
    obtain ⟨moment?, reason⟩ := a
    refine ⟨_, p.say policy .info " aborted" (some (abortDetails policy i)), ⟨_, rfl, rfl⟩,
      Progress.say_calls .., Progress.say_now .., fun bound => ?_⟩
    rw [attempts, if_pos h]
    rfl

theorem attempts_of_not_aborted {p : Progress} (h : isAborted abort p.now = false)
    (bound i : Nat) : attempts policy behaviour abort (bound + 1) i p =
      attempts.one policy behaviour abort bound i p := by
  cases abort with
  | none => rw [attempts]
  | some a => rw [attempts, if_neg (by simp [h])]

variable (policy) in
/-- There is to be another attempt, when the delay is over or the abort comes. -/
def Progress.paused (p : Progress) (abort : Option Abort) (i : Nat) (failure : Thrown) : Progress :=
  let failed : Failed := ⟨policy.config, i, failure⟩
  let delay := policy.delay failed
  let p := { p with asked := p.asked ++ [Question.accepts failed] ++ [Question.delay failed] }
  (p.say policy .debug (" retrying in " ++ delay.text ++ "ms")).wait abort (policy.pause failed)

theorem Progress.paused_now (p : Progress) (i : Nat) (failure : Thrown) :
    (p.paused policy abort i failure).now =
      resumed abort p.now (p.now.later (policy.pause ⟨policy.config, i, failure⟩) p.serial) := by
  simp only [Progress.paused, Progress.wait, Progress.say_now, Progress.say_serial]
  rfl

theorem Progress.paused_serial (p : Progress) (i : Nat) (failure : Thrown) :
    (p.paused policy abort i failure).serial = p.serial + 1 := by
  simp only [Progress.paused, Progress.wait, Progress.say_serial]

@[simp] theorem Progress.paused_calls (p : Progress) (i : Nat) (failure : Thrown) :
    (p.paused policy abort i failure).calls = p.calls := by
  simp [Progress.paused, Progress.wait]

theorem one_eq (bound i : Nat) (p : Progress) :
    attempts.one policy behaviour abort bound i p =
      match endOf policy behaviour abort (p.say policy .debug (numbered i)) i with
      | none => (.never, (p.say policy .debug (numbered i)).begin behaviour i false)
      | some e =>
        let p := (p.say policy .debug (numbered i)).attempted policy behaviour i e
        match e.outcome with
        | .ok a =>
          (.finished (.ok a), p.say policy .debug (" success on attempt #" ++ toString i))
        | .error failure =>
          let p := p.say policy .debug (" failed on attempt #" ++ toString i)
          if policy.config.maxRetries.le (Double.ofNat i) ∨ isAborted abort p.now then
            giveUp policy p i failure
          else if policy.accepts ⟨policy.config, i, failure⟩ then
            attempts policy behaviour abort bound (i + 1) (p.paused policy abort i failure)
          else giveUp policy
            { p with asked := p.asked ++ [Question.accepts ⟨policy.config, i, failure⟩] } i
            failure := by
  rw [attempts.one]
  rfl

variable (policy behaviour abort) in
/-- Where one attempt leads to, however many may follow: to the end of the run, or to the progress
with which the next one is due. -/
structure Leads (i : Nat) (p : Progress) (x : Ended α × Progress ⊕ Progress)
    (starts : List Moment) : Prop where
  attempts : ∀ bound, attempts policy behaviour abort (bound + 1) i p =
    x.elim id (attempts policy behaviour abort bound (i + 1))
  next : Next policy behaviour abort i p.now starts
    (x.map (fun r => (r.1, r.2.now)) Progress.now)
  calls : ∃ late, (x.elim Prod.snd id).calls =
    p.calls ++ starts.map fun m => ⟨i, m.time, late⟩
  serial : ∀ q, x = .inr q → q.serial = 3 * (i + 1) + 2

/-- A run gives up after a failure that is final. -/
theorem leads_of_giveUp {i : Nat} {p last : Progress} {e : End α} {failure : Thrown}
    (hstart : isAborted abort p.now = false)
    (hends : EndsUnder policy abort i (3 * i + 2) p.now (behaviour i) e)
    (hout : e.outcome = .error failure) (hfinal : Final policy abort i e)
    (hcalls : last.calls = p.calls ++ [⟨i, p.now.time, e.timedOut⟩]) (hnow : last.now = e.moment)
    (hgivesUp : ∀ bound, attempts policy behaviour abort (bound + 1) i p =
      giveUp policy last i failure) : ∃ x, Leads policy behaviour abort i p x [p.now] := by
  obtain ⟨r, hr, hgone, hthen⟩ := @giveUp_eq α policy last i failure
  have hlast := Next.last hstart hends hfinal
  rw [hout] at hlast
  refine ⟨.inl (_, r), fun bound => (hgivesUp bound).trans hr, ?_, ⟨e.timedOut, ?_⟩,
    fun _ hmore => by cases hmore⟩
  · simpa [hthen, hnow] using hlast
  · simp [hgone, hcalls]

theorem leads_of_end {i : Nat} {p : Progress} {e : End α} (hserial : p.serial = 3 * i + 2)
    (hstart : isAborted abort p.now = false)
    (he : endOf policy behaviour abort (p.say policy .debug (numbered i)) i = some e) :
    ∃ x, Leads policy behaviour abort i p x [p.now] := by
  have hends := endsUnder_of_endOf he
  rw [Progress.say_serial, Progress.say_now, hserial] at hends
  obtain ⟨htime, hnumber, hmade⟩ := @attempted_spec α policy behaviour
    (p.say policy .debug (numbered i)) i e
  have hattempts (bound : Nat) :=
    (@attempts_of_not_aborted α policy behaviour abort p hstart bound i).trans (one_eq bound i p)
  rw [Progress.say_serial, hserial] at hnumber
  rw [Progress.say_calls, Progress.say_now] at hmade
  simp only [he] at hattempts
  -- From here on only the time, the numbers and the calls of that progress matter.
  generalize (p.say policy .debug (numbered i)).attempted policy behaviour i e = q at *
  cases hout : e.outcome with
  | ok a =>
    simp only [hout] at hattempts
    have hlast := Next.last hstart hends (.inl ⟨a, hout⟩)
    rw [hout] at hlast
    exact ⟨.inl (.finished (.ok a), _), hattempts, by simpa [htime] using hlast,
      ⟨e.timedOut, by simp [hmade]⟩, fun _ hr => by cases hr⟩
  | error failure =>
    simp only [hout, Progress.say_now] at hattempts
    by_cases hmost : policy.config.maxRetries.le (Double.ofNat i) = true ∨
        isAborted abort q.now = true
    · simp only [if_pos hmost] at hattempts
      refine leads_of_giveUp hstart hends hout ?_ (by simp [hmade]) (by simp [htime]) hattempts
      rcases hmost with hle | habort
      · exact .inr (.inl hle)
      · exact .of_aborted (htime ▸ habort)
    · obtain ⟨hfewer, hnot⟩ := not_or.mp hmost
      rw [htime] at hnot
      cases haccepts : policy.accepts ⟨policy.config, i, failure⟩ with
      | false =>
        simp only [if_neg hmost, haccepts, Bool.false_eq_true, if_false] at hattempts
        exact leads_of_giveUp hstart hends hout (.inr (.inr (.inr ⟨failure, hout, haccepts⟩)))
          (by simp [hmade]) (by simp [htime]) hattempts
      | true =>
        simp only [if_neg hmost, haccepts, if_true] at hattempts
        have hmore := not_final hout (by simpa using hfewer) (by simpa using hnot) haccepts
        refine ⟨.inr _, hattempts, ?_, ⟨e.timedOut, by simp [hmade]⟩, fun r hr => ?_⟩
        · simp only [Sum.map_inr, Progress.paused_now, Progress.say_now, Progress.say_serial, htime,
            hnumber]
          exact .again hstart hends hout hmore
        · cases hr
          rw [Progress.paused_serial, Progress.say_serial, hnumber]
          omega

/-- What one attempt comes to does not depend on how many may follow. -/
theorem attempts_leads {i : Nat} {p : Progress} (hserial : p.serial = 3 * i + 2) :
    ∃ x starts, Leads policy behaviour abort i p x starts := by
  cases hstart : isAborted abort p.now with
  | true =>
    obtain ⟨ended, q, hended, hcalls, hnow, hattempts⟩ :=
      @attempts_of_aborted α policy behaviour abort p hstart i
    refine ⟨.inl (ended, q), [], hattempts, ?_, ⟨false, by simp [hcalls]⟩,
      fun _ hr => by cases hr⟩
    simpa [hnow] using .refused hstart hended
  | false =>
    cases he : endOf policy behaviour abort (p.say policy .debug (numbered i)) i with
    | some e =>
      obtain ⟨x, hleads⟩ := leads_of_end hserial hstart he
      exact ⟨x, _, hleads⟩
    | none =>
      have hnever (e : End α) : ¬ EndsUnder policy abort i (3 * i + 2) p.now (behaviour i) e := by
        intro h
        have hbegun : EndsUnder policy abort i (p.say policy .debug (numbered i)).serial
            (p.say policy .debug (numbered i)).now (behaviour i) e := by
          rwa [Progress.say_serial, Progress.say_now, hserial]
        cases he.symm.trans (endOf_of_endsUnder hbegun)
      refine ⟨.inl (.never, (p.say policy .debug (numbered i)).begin behaviour i false), [p.now],
        fun bound => ?_, ?_, ⟨false, ?_⟩, fun _ hr => by cases hr⟩
      · rw [attempts_of_not_aborted hstart, one_eq, he]
        rfl
      · simpa [Progress.begin] using .endless hstart hnever
      · simp [Progress.begin]

theorem Next.starts {i : Nat} {start : Moment} {starts : List Moment}
    {x : Ended α × Moment ⊕ Moment} (h : Next policy behaviour abort i start starts x) :
    starts = [] ∨ starts = [start] := by
  cases h with
  | refused => exact .inl rfl
  | _ => exact .inr rfl

theorem Next.starts_of_isRight {i : Nat} {start : Moment} {starts : List Moment}
    {x : Ended α × Moment ⊕ Moment} (h : Next policy behaviour abort i start starts x)
    (hx : x.isRight = true) : starts = [start] := by
  cases h with
  | again => rfl
  | _ => cases hx

/-- The attempts from one on leave a trail. -/
theorem attempts_trail (bound : Nat) {i : Nat} {p : Progress} (hserial : p.serial = 3 * i + 2) :
    ∃ starts,
      Trail policy behaviour abort bound i p.now starts
        (attempts policy behaviour abort bound i p).2.now
        (attempts policy behaviour abort bound i p).1 ∧
      (attempts policy behaviour abort bound i p).2.calls.map Call.attempt =
        p.calls.map Call.attempt ++ List.range' i starts.length ∧
      (attempts policy behaviour abort bound i p).2.calls.map Call.time =
        p.calls.map Call.time ++ starts.map Moment.time := by
  induction bound generalizing i p with
  | zero =>
    rw [attempts]
    exact ⟨[], .spent, by simp, by simp⟩
  | succ bound ih =>
    obtain ⟨x, starts, hattempts, hnext, ⟨late, hcalls⟩, hnumber⟩ :=
      @attempts_leads α policy behaviour abort i p hserial
    rw [hattempts]
    cases x with
    | inl r =>
      refine ⟨starts, .ends hnext, ?_⟩
      simp only [Sum.elim_inl, id] at hcalls ⊢
      rw [hcalls]
      rcases hnext.starts with rfl | rfl <;> simp
    | inr q =>
      obtain rfl := hnext.starts_of_isRight rfl
      obtain ⟨rest, htrail, hnumbers, htimes⟩ := ih (hnumber q rfl)
      simp only [Sum.elim_inr, id] at hcalls ⊢
      refine ⟨p.now :: rest, .goes hnext htrail, ?_, ?_⟩
      · rw [hnumbers, hcalls]
        simp [List.range'_succ]
      · rw [htimes, hcalls]
        simp

namespace Trail
variable {bound i : Nat} {start m now : Moment} {starts rest : List Moment} {ended : Ended α}

/-- From each attempt that starts, the rest of a trail is one too. -/
theorem onward {k : Nat} (h : Trail policy behaviour abort bound i start starts now ended)
    (hk : starts[k]? = some m) : ∃ left, bound = left + k ∧
      Trail policy behaviour abort left (i + k) m (m :: starts.drop (k + 1)) now ended := by
  -- Each attempt that goes on takes one off the bound and off the index.
  induction h generalizing k with
  | spent => simp at hk
  | ends hnext =>
    rcases hnext.starts with rfl | rfl
    · simp at hk
    · cases k with
      | zero =>
        obtain rfl := Option.some.inj hk
        exact ⟨_, rfl, .ends hnext⟩
      | succ k => simp at hk
  | @goes bound i start next now starts ended hnext hrest ih =>
    cases k with
    | zero =>
      obtain rfl := Option.some.inj hk
      exact ⟨_, rfl, .goes hnext hrest⟩
    | succ k =>
      obtain ⟨left, hleft, hrest'⟩ := ih (k := k) (by simpa using hk)
      have hnumber : i + 1 + k = i + (k + 1) := by omega
      exact ⟨left, by omega, hnumber ▸ hrest'⟩

theorem refused (h : Trail policy behaviour abort (bound + 1) i start starts now ended)
    (hstart : isAborted abort start = true) :
    starts = [] ∧ now = start ∧ Interrupted policy abort ended := by
  cases h with
  | ends hnext =>
    cases hnext with
    | refused _ hended => exact ⟨rfl, rfl, hended⟩
    | endless hnot => cases hnot.symm.trans hstart
    | last hnot => cases hnot.symm.trans hstart
  | goes hnext =>
    cases hnext with
    | again hnot => cases hnot.symm.trans hstart

theorem starts_of_not_aborted
    (h : Trail policy behaviour abort (bound + 1) i start starts now ended)
    (hstart : isAborted abort start = false) : starts[0]? = some start := by
  cases h with
  | ends hnext =>
    cases hnext with
    | refused habort => cases hstart.symm.trans habort
    | endless => rfl
    | last => rfl
  | goes => rfl

theorem unaborted (h : Trail policy behaviour abort bound i m (m :: rest) now ended) :
    isAborted abort m = false := by
  cases h with
  | ends hnext =>
    cases hnext with
    | endless hnot => exact hnot
    | last hnot => exact hnot
  | goes hnext =>
    cases hnext with
    | again hnot => exact hnot

theorem last {e : End α} (h : Trail policy behaviour abort bound i m (m :: rest) now ended)
    (hends : EndsUnder policy abort i (3 * i + 2) m (behaviour i) e)
    (hfinal : Final policy abort i e) :
    rest = [] ∧ now = e.moment ∧ ended = .finished (told policy e.outcome) := by
  cases h with
  | ends hnext =>
    cases hnext with
    | endless _ hnever => exact absurd hends (hnever e)
    | last _ hends' =>
      cases hends.unique hends'
      exact ⟨rfl, rfl, rfl⟩
  | goes hnext =>
    cases hnext with
    | again _ hends' _ hmore =>
      cases hends.unique hends'
      exact absurd hfinal hmore

theorem again {e : End α} {failure : Thrown}
    (h : Trail policy behaviour abort bound i m (m :: rest) now ended)
    (hends : EndsUnder policy abort i (3 * i + 2) m (behaviour i) e)
    (hfailed : e.outcome = .error failure) (hmore : ¬ Final policy abort i e) :
    ∃ left, bound = left + 1 ∧ Trail policy behaviour abort left (i + 1)
      (resumed abort e.moment (dueAfter policy i e failure)) rest now ended := by
  cases h with
  | ends hnext =>
    cases hnext with
    | endless _ hnever => exact absurd hends (hnever e)
    | last _ hends' hfinal =>
      cases hends.unique hends'
      exact absurd hfinal hmore
  | goes hnext hrest =>
    cases hnext with
    | again _ hends' hfailed' =>
      cases hends.unique hends'
      cases hfailed.symm.trans hfailed'
      exact ⟨_, rfl, hrest⟩

theorem endless (h : Trail policy behaviour abort bound i m (m :: rest) now ended)
    (hnever : ∀ e, ¬ EndsUnder policy abort i (3 * i + 2) m (behaviour i) e) :
    rest = [] ∧ ended = .never := by
  cases h with
  | ends hnext =>
    cases hnext with
    | endless => exact ⟨rfl, rfl⟩
    | last _ hends => exact absurd hends (hnever _)
  | goes hnext =>
    cases hnext with
    | again _ hends => exact absurd hends (hnever _)

theorem counted (h : Trail policy behaviour abort bound i start starts now ended)
    (hstart : start.Counted) : ∀ m ∈ starts, m.Counted := by
  induction h with
  | spent => exact fun m hm => absurd hm List.not_mem_nil
  | ends hnext =>
    rcases hnext.starts with rfl | rfl
    · exact fun m hm => absurd hm List.not_mem_nil
    · simpa using hstart
  | goes hnext hrest ih =>
    cases hnext with
    | again _ hends =>
      have hmoment := hends.counted hstart
      intro m hm
      rcases List.mem_cons.mp hm with rfl | hm
      · exact hstart
      · exact ih (hmoment.resumed (hmoment.later ..)) m hm

/-- No attempt follows one that may be the last. -/
theorem length_le {n : Nat} (h : Trail policy behaviour abort bound 0 start starts now ended)
    (hn : policy.config.maxRetries.le (Double.ofNat n) = true) : starts.length ≤ n + 1 := by
  by_contra hlong
  obtain ⟨left, -, hrest⟩ := h.onward (List.getElem?_eq_getElem (show n < starts.length by omega))
  rw [Nat.zero_add] at hrest
  have hnil : starts.drop (n + 1) = [] := by
    generalize starts[n] = m at hrest
    generalize starts.drop (n + 1) = rest at hrest
    cases hrest with
    | ends hnext =>
      rcases hnext.starts with hstarts | hstarts <;> cases hstarts
      rfl
    | goes hnext =>
      cases hnext with
      | again _ _ _ hmore => exact absurd (.inr (.inl hn)) hmore
  rw [List.drop_eq_nil_iff] at hnil
  omega

section Started
variable {e : End α} {failure : Thrown}
  (h : Trail policy behaviour abort bound 0 start starts now ended) (hm : starts[i]? = some m)
include h hm

/-- A started attempt in a trail: what is left of the trail, and that nothing is if nothing
follows. -/
theorem started : ∃ left rest, bound = left + i ∧
    Trail policy behaviour abort left i m (m :: rest) now ended ∧
    (rest = [] → starts.length = i + 1) ∧ starts[i + 1]? = rest[0]? := by
  obtain ⟨left, hleft, hrest⟩ := h.onward hm
  rw [Nat.zero_add] at hrest
  refine ⟨left, _, hleft, hrest, fun hnil => ?_, by simp⟩
  obtain ⟨hlt, -⟩ := List.getElem?_eq_some_iff.mp hm
  rw [List.drop_eq_nil_iff] at hnil
  omega

theorem started_unaborted : isAborted abort m = false := by
  obtain ⟨left, rest, -, hrest, -⟩ := h.started hm
  exact hrest.unaborted

/-- An attempt that is the last decides. -/
theorem started_last (hends : EndsUnder policy abort i (3 * i + 2) m (behaviour i) e)
    (hfinal : Final policy abort i e) :
    starts.length = i + 1 ∧ now = e.moment ∧ ended = .finished (told policy e.outcome) := by
  obtain ⟨left, rest, -, hrest, hlength, -⟩ := h.started hm
  obtain ⟨hnil, hnow, hended⟩ := hrest.last hends hfinal
  exact ⟨hlength hnil, hnow, hended⟩

/-- The abort comes while the next attempt is waited for. The times have to be comparable: then it
comes within the wait, and not after it. -/
theorem started_interrupted (hstart : start.Counted)
    (hends : EndsUnder policy abort i (3 * i + 2) m (behaviour i) e)
    (hfailed : e.outcome = .error failure) (hmore : ¬ Final policy abort i e)
    (hbound : i + 1 < bound) (habort : isAborted abort (dueAfter policy i e failure) = true) :
    starts.length = i + 1 ∧ (∃ a ∈ abort, a.moment? = some now) ∧
      Interrupted policy abort ended := by
  obtain ⟨left, rest, hleft, hrest, hlength, -⟩ := h.started hm
  obtain ⟨left, rfl, hnext⟩ := hrest.again hends hfailed hmore
  obtain ⟨left, rfl⟩ : ∃ l, left = l + 1 := ⟨left - 1, by omega⟩
  have hcounted := hends.counted (h.counted hstart m (List.mem_of_getElem? hm))
  have hnot : isAborted abort e.moment = false := by
    rw [← Bool.not_eq_true]
    exact fun haborted => hmore (.of_aborted haborted)
  obtain ⟨hresumed, hmoment⟩ := resumed_of_aborted hcounted (hcounted.later ..) hnot habort
  obtain ⟨hnil, hnow, hended⟩ := hnext.refused hresumed
  exact ⟨hlength hnil, hnow ▸ hmoment, hended⟩

theorem started_again (hends : EndsUnder policy abort i (3 * i + 2) m (behaviour i) e)
    (hfailed : e.outcome = .error failure) (hmore : ¬ Final policy abort i e)
    (hbound : i + 1 < bound) (hnot : isAborted abort (dueAfter policy i e failure) = false) :
    starts[i + 1]? = some (dueAfter policy i e failure) := by
  obtain ⟨left, rest, hleft, hrest, -, hafter⟩ := h.started hm
  obtain ⟨left, rfl, hnext⟩ := hrest.again hends hfailed hmore
  obtain ⟨left, rfl⟩ : ∃ l, left = l + 1 := ⟨left - 1, by omega⟩
  rw [resumed_of_not_aborted hnot] at hnext
  rw [hafter, hnext.starts_of_not_aborted hnot]

theorem started_endless
    (hnever : ∀ e, ¬ EndsUnder policy abort i (3 * i + 2) m (behaviour i) e) :
    starts.length = i + 1 ∧ ended = .never := by
  obtain ⟨left, rest, -, hrest, hlength, -⟩ := h.started hm
  obtain ⟨hnil, hended⟩ := hrest.endless hnever
  exact ⟨hlength hnil, hended⟩

/-- An attempt that waits for the abort ends with it. -/
theorem started_seen {a : Abort} {at_ : Moment} (ha : a ∈ abort) (hat : a.moment? = some at_)
    (hwaits : behaviour i = .untilAborted failure)
    (hlimit : ∀ limit, policy.limit? = some limit →
      (m.later limit (3 * i + 2)).before at_ = false) :
    starts.length = i + 1 ∧ now = at_ ∧ ended = .finished (told policy (.error failure)) := by
  obtain rfl := ha
  obtain ⟨at', hat', -, hpending⟩ := pending?_of_not_aborted (h.started_unaborted hm)
  cases hat.symm.trans hat'
  have hends : EndsUnder policy (some a) i (3 * i + 2) m (behaviour i)
      ⟨at_, false, .error failure⟩ := by
    rw [hwaits]
    exact .heeding failure at_ hpending hlimit
  refine h.started_last hm hends (.of_aborted ?_)
  simp [isAborted, hat, Moment.before_irrefl]

end Started

end Trail

/-- A run that is finished stays so however many more attempts there might be. -/
theorem attempts_more {bound i : Nat} {p q : Progress} {outcome : Result α} (more : Nat)
    (hserial : p.serial = 3 * i + 2)
    (h : attempts policy behaviour abort bound i p = (.finished outcome, q)) :
    attempts policy behaviour abort (bound + more) i p = (.finished outcome, q) := by
  induction bound generalizing i p with
  | zero =>
    rw [attempts] at h
    cases h
  | succ bound ih =>
    obtain ⟨x, starts, hattempts, -, -, hnumber⟩ :=
      @attempts_leads α policy behaviour abort i p hserial
    have hmore : bound + 1 + more = bound + more + 1 := by omega
    rw [hmore, hattempts]
    rw [hattempts] at h
    cases x with
    | inl r => exact h
    | inr q' => exact ih (hnumber q' rfl) h

/-- A run may make all attempts that the configuration asks for. -/
theorem lt_mostAttempts {q : Rat} {i : Nat} (hq : policy.config.maxRetries = .finite q)
    (hi : i < 2 ^ 53) (hmore : policy.config.maxRetries.le (Double.ofNat i) = false) :
    i + 1 < mostAttempts policy.config := by
  rw [hq, Double.ofNat_eq hi] at hmore
  have hlt : (i : Rat) < q := by simpa [Double.le] using hmore
  have hden : (0 : Rat) < q.den := by exact_mod_cast q.den_pos
  have hnum : (i : Int) * q.den ≤ q.num := by
    have hscaled : (i : Rat) * q.den < q * q.den := mul_lt_mul_of_pos_right hlt hden
    rw [Rat.mul_den_eq_num] at hscaled
    exact_mod_cast hscaled.le
  have hwhole : (i : Int) ≤ q.num.tdiv q.den := by
    rw [Int.tdiv_eq_ediv_of_nonneg ((by positivity : (0 : Int) ≤ i * q.den).trans hnum)]
    exact (Int.le_ediv_iff_mul_le (by exact_mod_cast q.den_pos)).mpr hnum
  rw [mostAttempts, hq, Double.truncate?]
  show i + 1 < (q.num.tdiv q.den).toNat + 2
  omega

variable (policy behaviour abort) in
/-- What becomes of a run under an abort, the attempts of which start at these moments. The bound is
one that no real run has. -/
structure Heeds (bound : Nat) (r : Ended α × Progress) (starts : List Moment) : Prop where
  numbers : r.2.calls.map Call.attempt = List.range starts.length
  times : r.2.calls.map Call.time = starts.map Moment.time
  /-- No attempt starts after the abort. -/
  unaborted : ∀ m ∈ starts, isAborted abort m = false
  /-- There is none if the abort has come before the first one. -/
  refused : 0 < bound → isAborted abort .start = true →
    starts = [] ∧ r.2.now = .start ∧ Interrupted policy abort r.1
  first : 0 < bound → isAborted abort .start = false → starts[0]? = some .start
  /-- If the abort comes during an attempt, or nothing else may follow it, its own outcome decides,
  as soon as it is there. -/
  decided : ∀ i m e, starts[i]? = some m →
    EndsUnder policy abort i (3 * i + 2) m (behaviour i) e → Final policy abort i e →
    starts.length = i + 1 ∧ r.2.now = e.moment ∧ r.1 = .finished (told policy e.outcome)
  /-- If it comes while the next attempt is waited for, the run ends at that moment. -/
  interrupted : ∀ i m e failure, starts[i]? = some m →
    EndsUnder policy abort i (3 * i + 2) m (behaviour i) e → e.outcome = .error failure →
    ¬ Final policy abort i e → i + 1 < bound →
    isAborted abort (dueAfter policy i e failure) = true →
    starts.length = i + 1 ∧ (∃ a ∈ abort, a.moment? = some r.2.now) ∧ Interrupted policy abort r.1
  again : ∀ i m e failure, starts[i]? = some m →
    EndsUnder policy abort i (3 * i + 2) m (behaviour i) e → e.outcome = .error failure →
    ¬ Final policy abort i e → i + 1 < bound →
    isAborted abort (dueAfter policy i e failure) = false →
    starts[i + 1]? = some (dueAfter policy i e failure)
  endless : ∀ i m, starts[i]? = some m →
    (∀ e, ¬ EndsUnder policy abort i (3 * i + 2) m (behaviour i) e) →
    starts.length = i + 1 ∧ r.1 = .never
  /-- The signal of an attempt is aborted by the abort, -/
  signalled : ∀ c ∈ r.2.calls, ∀ m, isAborted abort m = true → c.isAborted abort m = true
  /-- so that one that waits for that ends then, if its limit does not come first. -/
  seen : ∀ i m failure, starts[i]? = some m → behaviour i = .untilAborted failure →
    ∀ a ∈ abort, ∀ at_, a.moment? = some at_ →
    (∀ limit, policy.limit? = some limit →
      (m.later limit (3 * i + 2)).before at_ = false) →
    starts.length = i + 1 ∧ r.2.now = at_ ∧ r.1 = .finished (told policy (.error failure))
  few : ∀ n, policy.config.maxRetries.le (Double.ofNat n) = true → starts.length ≤ n + 1

theorem heeds_attempts (bound : Nat) : ∃ starts,
    Heeds policy behaviour abort bound (attempts policy behaviour abort bound 0 {}) starts := by
  obtain ⟨starts, htrail, hnumbers, htimes⟩ :=
    @attempts_trail α policy behaviour abort bound 0 {} rfl
  refine ⟨starts,
    { numbers := by simpa [List.range_eq_range'] using hnumbers
      times := by simpa using htimes
      unaborted := fun m hm => ?_
      refused := fun hbound habort => ?_
      first := fun hbound hnot => ?_
      decided := fun i m e hm => htrail.started_last hm
      interrupted := fun i m e failure hm => htrail.started_interrupted hm rfl
      again := fun i m e failure hm => htrail.started_again hm
      endless := fun i m hm => htrail.started_endless hm
      signalled := fun c _ m habort => ?_
      seen := fun i m failure hm hwaits a ha at_ hat => htrail.started_seen hm ha hat hwaits
      few := fun n hn => htrail.length_le hn }⟩
  · obtain ⟨i, hm⟩ := List.mem_iff_getElem?.mp hm
    exact htrail.started_unaborted hm
  · obtain ⟨fuel, rfl⟩ := Nat.exists_eq_add_of_lt hbound
    rw [Nat.zero_add] at htrail ⊢
    exact htrail.refused habort
  · obtain ⟨fuel, rfl⟩ := Nat.exists_eq_add_of_lt hbound
    rw [Nat.zero_add] at htrail
    exact htrail.starts_of_not_aborted hnot
  · rw [Call.isAborted, habort, Bool.or_true]

end

/-- Whenever the abort comes, if it comes, a run makes its attempts one after the other and none
after the abort. One that is under way then decides with its own outcome, which is what it would be
anyway unless the attempt waits for the abort; waiting for the next one ends at the abort. Only a
failure that no report can tell is replaced when there is a log. -/
theorem run_under_abort {α : Type} (policy : Policy) (behaviour : Nat → Behaviour α)
    (abort : Option Abort) :
    (∃ starts, Heeds policy behaviour abort (mostAttempts policy.config)
      (run policy behaviour abort) starts) ∧
    (∀ q i, policy.config.maxRetries = .finite q → i < 2 ^ 53 →
      policy.config.maxRetries.le (Double.ofNat i) = false →
      i + 1 < mostAttempts policy.config) ∧
    (∀ bound, ∃ starts, Heeds policy behaviour abort bound
      (attempts policy behaviour abort bound 0 {}) starts) ∧
    (∀ bound more outcome p, attempts policy behaviour abort bound 0 {} = (.finished outcome, p) →
      attempts policy behaviour abort (bound + more) 0 {} = (.finished outcome, p)) ∧
    (∀ i serial start b (e : End α), EndsUnder policy abort i serial start b e →
      (∀ failure, b ≠ .untilAborted failure) →
      EndsAt policy i start.time b e.moment.time e.timedOut e.outcome) ∧
    (∀ outcome : Result α, (policy.logging = false ∨
      ∀ failure, outcome = .error failure → failure.isTellable false = true) →
      told policy outcome = outcome) ∧
    (∀ i, told policy (.error (overdue policy i) : Result α) = .error (overdue policy i)) ∧
    ∀ d < 2 ^ 53, platformTimer (Double.ofNat d) =
      Double.ofNat (if 1 ≤ d ∧ d ≤ 2147483647 then d else 1) := by
  have htold (outcome : Result α) (h : policy.logging = false ∨
      ∀ failure, outcome = .error failure → failure.isTellable false = true) :
      told policy outcome = outcome := by
    cases outcome with
    | ok a => rfl
    | error failure =>
      rw [told_error, lastFailure_of_tellable (h.imp_right fun h => h failure rfl)]
  refine ⟨heeds_attempts _, fun q i => lt_mostAttempts, heeds_attempts,
    fun bound more outcome p => attempts_more more rfl,
    fun i serial start b e h hb => h.endsAt (.inr hb),
    htold, fun i => htold _ (.inr fun failure h => ?_), fun d => platformTimer_ofNat⟩
  cases h
  rfl

theorem start_later {n : Nat} (hn : n < 2 ^ 53) (serial : Nat) :
    Moment.start.later (Double.ofNat n) serial = ⟨.finite n, serial⟩ := by
  have htime : passed (Double.ofNat 0) (Double.ofNat n) = .finite n := by
    rw [passed_whole (by omega), Nat.zero_add, Double.ofNat_eq hn]
  exact congrArg (Moment.mk · serial) htime

theorem start_unaborted {n : Nat} (hpos : 0 < n) (hn : n < 2 ^ 53) (reason : Thrown) :
    isAborted (some ⟨some (Moment.start.later (Double.ofNat n) 1), reason⟩) .start = false := by
  have hzero : Moment.start = ⟨.finite 0, 0⟩ := rfl
  simp only [isAborted, start_later hn]
  rw [hzero]
  simp [Moment.before, Double.lt, hpos]

/-- The abort comes in the fifty milliseconds after the first attempt. -/
theorem run_under_abort_waiting :
    let policy : Policy :=
      { config := { maxRetries := Double.ofNat 2 }, delay := fun _ => Double.ofNat 50
        accepts := isRetryable }
    let behaviour : Nat → Behaviour Nat := fun _ => .ends none (.error (.plain .plain "offline"))
    let abort : Abort := ⟨some (Moment.start.later (Double.ofNat 10) 1), .undefined⟩
    let r := run policy behaviour (some abort)
    r.2.calls.map Call.attempt = [0] ∧ r.2.now = Moment.start.later (Double.ofNat 10) 1 ∧
      r.1 = .finished (.error (.because .nonRetryable "retryable task aborted" .undefined)) := by
  intro policy behaviour abort r
  obtain ⟨⟨starts, hheeds⟩, hmost, -⟩ := run_under_abort policy behaviour (some abort)
  let failure : Thrown := .plain .plain "offline"
  let e : End Nat := ⟨.start, false, .error failure⟩
  have hends : EndsUnder policy (some abort) 0 2 .start (behaviour 0) e := .atOnce _
  have hretries : policy.config.maxRetries = .finite (2 : Nat) := by
    simp only [policy, Double.ofNat_eq (by decide : 2 < 2 ^ 53)]
  have hfewer : policy.config.maxRetries.le (Double.ofNat 0) = false := by
    rw [hretries, Double.ofNat_eq (by decide)]
    decide
  have hbound := hmost _ 0 hretries (by decide) hfewer
  have hstart := start_unaborted (by decide : 0 < 10) (by decide) .undefined
  have hmore : ¬ Final policy (some abort) 0 e := not_final rfl hfewer hstart rfl
  have hdue : isAborted (some abort) (dueAfter policy 0 e failure) = true := by
    have hfifty : platformTimer (Double.ofNat 50) = Double.ofNat 50 :=
      platformTimer_ofNat (by decide)
    norm_num [abort, e, policy, dueAfter, hfifty, isAborted, start_later, Moment.before, Double.lt]
  obtain ⟨hlength, ⟨a, ha, hnow⟩, a', ha', hended⟩ := hheeds.interrupted 0 .start e failure
    (hheeds.first (by omega) hstart) hends rfl hmore hbound hdue
  cases ha
  cases ha'
  have hnumbers := hheeds.numbers
  rw [hlength] at hnumbers
  exact ⟨hnumbers, (Option.some.inj hnow).symm, hended⟩

/-- The abort comes while the first attempt is under way, which fails with an object that holds a
big integer; the result is the fault of the report. -/
theorem untellable_failure_replaced_under_abort :
    let policy : Policy := { delay := doublingDelay, accepts := isRetryable }
    let failure : Thrown := .object none [("count", .bigint 1)]
    let behaviour : Nat → Behaviour Nat := fun _ => .ends (some (Double.ofNat 2)) (.error failure)
    let abort : Abort := ⟨some (Moment.start.later (Double.ofNat 1) 1), .undefined⟩
    ∃ e, EndsUnder policy (some abort) 0 2 .start (behaviour 0) e ∧ e.outcome = .error failure ∧
      isAborted (some abort) .start = false ∧ isAborted (some abort) e.moment = true ∧
      (run policy behaviour (some abort)).1 = .finished (.error (.platform .bigInteger)) := by
  intro policy failure behaviour abort
  let e : End Nat := ⟨Moment.start.later (Double.ofNat 2) 3, false, .error failure⟩
  have hlimit : policy.limit? = none := by decide
  have hends : EndsUnder policy (some abort) 0 2 .start (behaviour 0) e :=
    .inTime (Double.ofNat 2) _ fun limit h => by cases hlimit.symm.trans h
  have hstart := start_unaborted (by decide : 0 < 1) (by decide) .undefined
  have habort : isAborted (some abort) e.moment = true := by
    simp [abort, e, isAborted, start_later, Moment.before, Double.lt]
  have hmost : 0 < mostAttempts policy.config := by
    unfold mostAttempts
    split <;> exact Nat.succ_pos _
  obtain ⟨starts, hheeds⟩ :=
    @heeds_attempts Nat policy behaviour (some abort) (mostAttempts policy.config)
  obtain ⟨-, -, hended⟩ := hheeds.decided 0 .start e (hheeds.first hmost hstart) hends
    (.of_aborted habort)
  have hfault : lastFailure policy failure = (none, .platform .bigInteger) := rfl
  refine ⟨e, hends, rfl, hstart, habort, ?_⟩
  rw [told_error, hfault] at hended
  exact hended

end Retry
end Bearer
