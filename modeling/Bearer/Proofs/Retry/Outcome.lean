import Bearer.Proofs.Number.Whole
import Bearer.Proofs.Report
import Bearer.Retry.Run

namespace Bearer.Retry

/-- The time after so many milliseconds; there is no going back. -/
def passed (time ms : Double) : Double := if (0 : Double).lt ms then time + ms else time

theorem Moment.later_time (m : Moment) (ms : Double) (serial : Nat) :
    (m.later ms serial).time = passed m.time ms := rfl

/-- Whole milliseconds add up without loss. -/
theorem passed_whole {a d : Nat} (h : a + d < 2 ^ 53) :
    passed (Double.ofNat a) (Double.ofNat d) = Double.ofNat (a + d) := by
  have hsum : Double.add (.finite a) (.finite d) = Double.ofNat (a + d) := by
    simp [Double.add, Double.ofNat, Double.ofInt]
  have hzero : (0 : Double) = .finite 0 := rfl
  rw [passed, Double.ofNat_eq (n := a) (by omega), Double.ofNat_eq (n := d) (by omega), hzero]
  rcases Nat.eq_zero_or_pos d with rfl | hpos
  · rw [if_neg (by simp [Double.lt]), Nat.add_zero, Double.ofNat_eq (by omega)]
  · rw [if_pos (by simp [Double.lt, hpos])]
    exact hsum

/-- Whole milliseconds last as long as a timer is set to, from one of them to as many as it can be
set to. -/
theorem platformTimer_ofNat {d : Nat} (hd : d < 2 ^ 53) :
    platformTimer (Double.ofNat d) =
      Double.ofNat (if 1 ≤ d ∧ d ≤ 2147483647 then d else 1) := by
  have hone : (1 : Double) = Double.ofNat 1 := rfl
  have hlongest : longestTimer = 2147483647 := rfl
  have hrange : ((1 : Double).le (Double.ofNat d) = true ∧
      (Double.ofNat d).le (Double.ofNat longestTimer) = true) ↔ 1 ≤ d ∧ d ≤ 2147483647 := by
    rw [hone, hlongest, Double.ofNat_eq (n := 1) (by decide), Double.ofNat_eq hd,
      Double.ofNat_eq (n := 2147483647) (by decide)]
    simp only [Double.le, decide_eq_true_eq, Nat.cast_le]
  unfold platformTimer
  split
  · next h => rw [if_pos (hrange.mp h), Double.floor_ofNat hd]
  · next h => rw [if_neg fun hd => h (hrange.mpr hd), hone]

/-- A time that is not after another one. -/
def NotAfter (x y : Double) : Prop := x.lt y = true ∨ x = y

section Attempts
variable {α : Type} (policy : Policy) (behaviour : Nat → Behaviour α)

/-- How an attempt ends that starts at some time: when, whether by its limit, and with which
outcome. Its own outcome counts only when it comes before the limit. -/
inductive EndsAt (i : Nat) (start : Double) : Behaviour α → Double → Bool → Result α → Prop
  | atOnce (outcome : Result α) : EndsAt i start (.ends none outcome) start false outcome
  | inTime (ms : Double) (outcome : Result α)
      (h : ∀ limit, policy.limit? = some limit →
        ¬ NotAfter (passed start limit) (passed start ms)) :
      EndsAt i start (.ends (some ms) outcome) (passed start ms) false outcome
  | late (ms limit : Double) (outcome : Result α) (hlimit : policy.limit? = some limit)
      (h : NotAfter (passed start limit) (passed start ms)) :
      EndsAt i start (.ends (some ms) outcome) (passed start limit) true
        (.error (overdue policy i))
  | hanging (limit : Double) (hlimit : policy.limit? = some limit) :
      EndsAt i start .hangs (passed start limit) true (.error (overdue policy i))
  | givenUp (limit : Double) (failure : Thrown) (hlimit : policy.limit? = some limit) :
      EndsAt i start (.untilAborted failure) (passed start limit) true (.error failure)

variable {policy} in
/-- An attempt ends in one way only. -/
theorem EndsAt.unique {i : Nat} {start time time' : Double} {b : Behaviour α} {late late' : Bool}
    {outcome outcome' : Result α} (h : EndsAt policy i start b time late outcome)
    (h' : EndsAt policy i start b time' late' outcome') :
    time = time' ∧ late = late' ∧ outcome = outcome' := by
  cases h with
  | atOnce outcome =>
    cases h'
    exact ⟨rfl, rfl, rfl⟩
  | inTime ms outcome hin =>
    cases h' with
    | inTime => exact ⟨rfl, rfl, rfl⟩
    | late ms limit outcome hl hlate => exact absurd hlate (hin limit hl)
  | late ms limit outcome hl hlate =>
    cases h' with
    | inTime ms outcome hin => exact absurd hlate (hin limit hl)
    | late ms limit outcome hl' hlate =>
      cases hl.symm.trans hl'
      exact ⟨rfl, rfl, rfl⟩
  | hanging limit hl =>
    cases h' with
    | hanging limit hl' =>
      cases hl.symm.trans hl'
      exact ⟨rfl, rfl, rfl⟩
  | givenUp limit failure hl =>
    cases h' with
    | givenUp limit failure hl' =>
      cases hl.symm.trans hl'
      exact ⟨rfl, rfl, rfl⟩

/-- An attempt has no outcome of its own before its limit. -/
inductive OutOfTime (start : Double) : Behaviour α → Prop
  | hangs : OutOfTime start .hangs
  | ends (ms limit : Double) (outcome : Result α) (hlimit : policy.limit? = some limit)
      (h : NotAfter (passed start limit) (passed start ms)) :
      OutOfTime start (.ends (some ms) outcome)

variable {policy behaviour}

/-- The limit is set first, so it comes first also when both are due at once. -/
theorem before_iff {now : Moment} {limit ms : Double} {serial : Nat} :
    (now.later limit serial).before (now.later ms (serial + 1)) = true ↔
      NotAfter (passed now.time limit) (passed now.time ms) := by
  simp only [Moment.before, Bool.or_eq_true, Bool.and_eq_true, decide_eq_true_eq]
  exact or_congr_right (and_iff_left (Nat.lt_succ_self serial))

section Abort
variable (policy) (abort : Option Abort)

/-- How an attempt ends that starts at some moment, its timers numbered from some number on. The
abort ends it only if it waits for nothing else. -/
inductive EndsUnder (i serial : Nat) (start : Moment) : Behaviour α → End α → Prop
  | atOnce (outcome : Result α) :
      EndsUnder i serial start (.ends none outcome) ⟨start, false, outcome⟩
  | inTime (ms : Double) (outcome : Result α)
      (h : ∀ limit, policy.limit? = some limit →
        (start.later limit serial).before (start.later ms (serial + 1)) = false) :
      EndsUnder i serial start (.ends (some ms) outcome)
        ⟨start.later ms (serial + 1), false, outcome⟩
  | late (ms limit : Double) (outcome : Result α) (hlimit : policy.limit? = some limit)
      (h : (start.later limit serial).before (start.later ms (serial + 1)) = true) :
      EndsUnder i serial start (.ends (some ms) outcome)
        ⟨start.later limit serial, true, .error (overdue policy i)⟩
  | hanging (limit : Double) (hlimit : policy.limit? = some limit) :
      EndsUnder i serial start .hangs
        ⟨start.later limit serial, true, .error (overdue policy i)⟩
  | heeding (failure : Thrown) (moment : Moment) (habort : pending? abort start = some moment)
      (h : ∀ limit, policy.limit? = some limit →
        (start.later limit serial).before moment = false) :
      EndsUnder i serial start (.untilAborted failure) ⟨moment, false, .error failure⟩
  | unheeded (failure : Thrown) (limit : Double) (hlimit : policy.limit? = some limit)
      (h : ∀ moment, pending? abort start = some moment →
        (start.later limit serial).before moment = true) :
      EndsUnder i serial start (.untilAborted failure)
        ⟨start.later limit serial, true, .error failure⟩

variable {policy abort}

theorem endsUnder_of_endOf {p : Progress} {i : Nat} {e : End α}
    (h : endOf policy behaviour abort p i = some e) :
    EndsUnder policy abort i p.serial p.now (behaviour i) e := by
  unfold endOf at h
  cases hb : behaviour i with
  | ends after outcome =>
    cases after with
    | none =>
      simp only [hb, Option.some.injEq] at h
      subst h
      exact .atOnce outcome
    | some ms =>
      cases hl : policy.limit? with
      | none =>
        simp only [hb, hl, Option.map_none, Option.any_none, Bool.false_eq_true, if_false,
          Option.some.injEq] at h
        subst h
        exact .inTime ms outcome (by simp [hl])
      | some limit =>
        simp only [hb, hl, Option.map_some, Option.any_some] at h
        split at h
        · next hlate =>
          cases h
          exact .late ms limit outcome hl hlate
        · next hin =>
          cases h
          refine .inTime ms outcome fun l hl' => ?_
          cases hl.symm.trans hl'
          simpa using hin
  | hangs =>
    simp only [hb, Option.map_eq_some_iff] at h
    obtain ⟨m, ⟨limit, hl, rfl⟩, rfl⟩ := h
    exact .hanging limit hl
  | untilAborted failure =>
    cases hp : pending? abort p.now with
    | none =>
      simp only [hb, hp, Option.map_eq_some_iff] at h
      obtain ⟨m, ⟨limit, hl, rfl⟩, rfl⟩ := h
      exact .unheeded failure limit hl (by simp [hp])
    | some moment =>
      simp only [hb, hp] at h
      split at h
      · next hfirst =>
        simp only [Option.map_eq_some_iff] at h
        obtain ⟨m, ⟨limit, hl, rfl⟩, rfl⟩ := h
        refine .unheeded failure limit hl fun moment' hp' => ?_
        cases hp.symm.trans hp'
        simpa [hl] using hfirst
      · next hfirst =>
        cases h
        refine .heeding failure moment hp fun limit hl => ?_
        simpa [hl] using hfirst

theorem endOf_of_endsUnder {p : Progress} {i : Nat} {e : End α}
    (h : EndsUnder policy abort i p.serial p.now (behaviour i) e) :
    endOf policy behaviour abort p i = some e := by
  unfold endOf
  generalize behaviour i = b at h
  cases h with
  | atOnce outcome => rfl
  | inTime ms outcome h =>
    cases hl : policy.limit? with
    | none => simp
    | some limit => simp [h limit hl]
  | late ms limit outcome hl h => simp [hl, h]
  | hanging limit hl => simp [hl]
  | heeding failure moment hp h =>
    cases hl : policy.limit? with
    | none => simp [hp]
    | some limit => simp [hp, h limit hl]
  | unheeded failure limit hl h =>
    cases hp : pending? abort p.now with
    | none => simp [hl]
    | some moment => simp [hl, h moment hp]

/-- An attempt that does not wait for an abort ends as if there were none. -/
theorem EndsUnder.endsAt {i serial : Nat} {start : Moment} {b : Behaviour α} {e : End α}
    (h : EndsUnder policy abort i serial start b e)
    (hb : abort = none ∨ ∀ failure, b ≠ .untilAborted failure) :
    EndsAt policy i start.time b e.moment.time e.timedOut e.outcome := by
  cases h with
  | atOnce outcome => exact .atOnce outcome
  | inTime ms outcome h =>
    refine .inTime ms outcome fun limit hl hlate => ?_
    have hin := h limit hl
    rw [before_iff.mpr hlate] at hin
    cases hin
  | late ms limit outcome hl h => exact .late ms limit outcome hl (before_iff.mp h)
  | hanging limit hl => exact .hanging limit hl
  | heeding failure moment habort =>
    rcases hb with rfl | hb
    · cases habort
    · exact absurd rfl (hb failure)
  | unheeded failure limit hl => exact .givenUp limit failure hl

end Abort

theorem endsAt_of_endOf {p : Progress} {i : Nat} {e : End α}
    (h : endOf policy behaviour none p i = some e) :
    EndsAt policy i p.now.time (behaviour i) e.moment.time e.timedOut e.outcome :=
  (endsUnder_of_endOf h).endsAt (.inl rfl)

theorem limit?_of_endOf {p : Progress} {i : Nat} (h : endOf policy behaviour none p i = none) :
    policy.limit? = none ∧
      ∀ time late outcome, ¬ EndsAt policy i p.now.time (behaviour i) time late outcome := by
  unfold endOf at h
  cases hb : behaviour i with
  | ends after outcome =>
    cases after with
    | none => simp [hb] at h
    | some ms =>
      cases hl : policy.limit? with
      | none => simp [hb, hl] at h
      | some limit =>
        simp only [hb, hl, Option.map_some] at h
        split at h <;> cases h
  | hangs =>
    simp only [hb, Option.map_eq_none_iff] at h
    refine ⟨h, fun time late outcome hends => ?_⟩
    cases hends with
    | hanging limit hl => cases h.symm.trans hl
  | untilAborted failure =>
    simp only [hb, pending?, Option.bind_none, Option.filter_none, Option.map_eq_none_iff] at h
    refine ⟨h, fun time late outcome hends => ?_⟩
    cases hends with
    | givenUp limit failure hl => cases h.symm.trans hl

/-- Two attempts without an outcome before the limit end alike. -/
theorem endOf_outOfTime {behaviour' : Nat → Behaviour α} {p : Progress} {i : Nat}
    (h : OutOfTime policy p.now.time (behaviour i))
    (h' : OutOfTime policy p.now.time (behaviour' i)) :
    endOf policy behaviour none p i = endOf policy behaviour' none p i := by
  have hover (b : Nat → Behaviour α) (hb : OutOfTime policy p.now.time (b i)) :
      endOf policy b none p i = (policy.limit?.map (fun ms => p.now.later ms p.serial)).map
        (fun m => ⟨m, true, .error (overdue policy i)⟩) := by
    generalize hbi : b i = bi at hb
    cases hb with
    | hangs => simp only [endOf, hbi]
    | ends ms limit outcome hl hlate =>
      simp only [endOf, hbi, hl, Option.map_some, Option.any_some, before_iff.mpr hlate, if_true]
  rw [hover behaviour h, hover behaviour' h']

variable (policy behaviour)

/-- The attempts from one on, their starts, the time at the end, and the end. -/
inductive Course : Nat → Double → List Call → Double → Ended α → Prop
  | endless {i : Nat} {start : Double} (hlimit : policy.limit? = none)
      (h : ∀ time late outcome, ¬ EndsAt policy i start (behaviour i) time late outcome) :
      Course i start [⟨i, start, false⟩] start .never
  | value {i : Nat} {start time : Double} {late : Bool} {a : α}
      (h : EndsAt policy i start (behaviour i) time late (.ok a)) :
      Course i start [⟨i, start, late⟩] time (.finished (.ok a))
  | stopped {i : Nat} {start time : Double} {late : Bool} {failure : Thrown}
      (h : EndsAt policy i start (behaviour i) time late (.error failure))
      (hstop : policy.config.maxRetries.le (Double.ofNat i) = true ∨
        policy.accepts ⟨policy.config, i, failure⟩ = false) :
      Course i start [⟨i, start, late⟩] time (.finished (.error (lastFailure policy failure).2))
  | again {i : Nat} {start time now : Double} {late : Bool} {failure : Thrown}
      {calls : List Call} {ended : Ended α}
      (h : EndsAt policy i start (behaviour i) time late (.error failure))
      (hmore : policy.config.maxRetries.le (Double.ofNat i) = false)
      (haccepts : policy.accepts ⟨policy.config, i, failure⟩ = true)
      (hrest : Course (i + 1) (passed time (policy.pause ⟨policy.config, i, failure⟩)) calls now
        ended) :
      Course i start (⟨i, start, late⟩ :: calls) now ended

variable {policy behaviour}

@[simp] theorem Progress.say_now (p : Progress) (level : Log.Level) (text : String)
    (details : Option Json) : (p.say policy level text details).now = p.now := by
  unfold Progress.say
  split <;> rfl

@[simp] theorem Progress.say_calls (p : Progress) (level : Log.Level) (text : String)
    (details : Option Json) : (p.say policy level text details).calls = p.calls := by
  unfold Progress.say
  split <;> rfl

@[simp] theorem Progress.say_serial (p : Progress) (level : Log.Level) (text : String)
    (details : Option Json) : (p.say policy level text details).serial = p.serial := by
  unfold Progress.say
  split <;> rfl

theorem giveUp_eq (p : Progress) (i : Nat) (failure : Thrown) :
    ∃ q, giveUp policy p i failure =
        ((.finished (.error (lastFailure policy failure).2) : Ended α), q) ∧
      q.calls = p.calls ∧ q.now = p.now := by
  unfold giveUp
  rcases lastFailure policy failure with ⟨_ | details, failure⟩
  · exact ⟨_, rfl, rfl, rfl⟩
  · exact ⟨_, rfl, Progress.say_calls .., Progress.say_now ..⟩

variable (policy behaviour) in
def Progress.attempted (p : Progress) (i : Nat) (e : End α) : Progress :=
  let p := { p.begin behaviour i e.timedOut with now := e.moment }
  if e.timedOut then
    p.say policy .warn (Retry.numbered i ++ " exceeded timeout "
      ++ policy.config.timeout.text ++ "ms")
  else p

theorem attempted_spec (p : Progress) (i : Nat) (e : End α) :
    let q := p.attempted policy behaviour i e
    q.now = e.moment ∧ q.serial = p.serial + 2 ∧
      q.calls = p.calls ++ [⟨i, p.now.time, e.timedOut⟩] := by
  dsimp only
  unfold Progress.attempted
  split <;> simp [Progress.begin]

variable (policy) in
/-- There is to be another attempt, when the delay is over. -/
def Progress.postponed (p : Progress) (i : Nat) (failure : Thrown) : Progress :=
  let failed : Failed := ⟨policy.config, i, failure⟩
  let delay := policy.delay failed
  let p := { p with asked := p.asked ++ [Question.accepts failed] ++ [Question.delay failed] }
  (p.say policy .debug (" retrying in " ++ delay.text ++ "ms")).wait none (policy.pause failed)

variable (policy behaviour) in
/-- Where one attempt leads to: the end, or another attempt. -/
def next (i : Nat) (p : Progress) : Ended α × Progress ⊕ Progress :=
  let p := p.say policy .debug (Retry.numbered i)
  match endOf policy behaviour none p i with
  | none => .inl (.never, p.begin behaviour i false)
  | some e =>
    let p := p.attempted policy behaviour i e
    match e.outcome with
    | .ok a =>
      .inl (.finished (.ok a), p.say policy .debug (" success on attempt #" ++ toString i))
    | .error failure =>
      let p := p.say policy .debug (" failed on attempt #" ++ toString i)
      let failed : Failed := ⟨policy.config, i, failure⟩
      if policy.config.maxRetries.le (Double.ofNat i) then .inl (giveUp policy p i failure)
      else if policy.accepts failed then .inr (p.postponed policy i failure)
      else .inl (giveUp policy { p with asked := p.asked ++ [Question.accepts failed] } i failure)

theorem attempts_succ (fuel i : Nat) (p : Progress) :
    attempts policy behaviour none (fuel + 1) i p =
      (next policy behaviour i p).elim id (attempts policy behaviour none fuel (i + 1)) := by
  simp only [attempts, attempts.one, next]
  cases endOf policy behaviour none (p.say policy .debug (numbered i)) i with
  | none => rfl
  | some e =>
    cases hout : e.outcome with
    | ok a => simp only [hout, Progress.attempted, Sum.elim_inl, id]
    | error failure =>
      simp only [hout, isAborted, Bool.false_eq_true, or_false, Progress.attempted]
      split
      · rfl
      · split <;> rfl

theorem le_ofNat_iff {n i : Nat} (hn : policy.config.maxRetries = Double.ofNat n)
    (hsmall : n < 2 ^ 53) (hi : i ≤ n) :
    policy.config.maxRetries.le (Double.ofNat i) = true ↔ i = n := by
  rw [hn, Double.ofNat_eq hsmall, Double.ofNat_eq (Nat.lt_of_le_of_lt hi hsmall)]
  simp only [Double.le, decide_eq_true_eq, Nat.cast_le]
  omega

/-- A run that gives up after a failure is at the end of its course. -/
theorem giveUp_course {i : Nat} {p last : Progress} {time : Double} {late : Bool}
    {failure : Thrown} (hcalls : last.calls = p.calls ++ [⟨i, p.now.time, late⟩])
    (htime : last.now.time = time)
    (hends : EndsAt policy i p.now.time (behaviour i) time late (.error failure))
    (hstop : policy.config.maxRetries.le (Double.ofNat i) = true ∨
      policy.accepts ⟨policy.config, i, failure⟩ = false) :
    ∃ ended q late, (Sum.inl (giveUp policy last i failure) : _ ⊕ Progress) = .inl (ended, q) ∧
      q.calls = p.calls ++ [⟨i, p.now.time, late⟩] ∧
      Course policy behaviour i p.now.time [⟨i, p.now.time, late⟩] q.now.time ended := by
  obtain ⟨q, hq, hgone, hthen⟩ := @giveUp_eq α policy last i failure
  refine ⟨_, q, late, congrArg Sum.inl hq, ?_, ?_⟩
  · rw [hgone, hcalls]
  · rw [hthen, htime]
    exact .stopped hends hstop

/-- An attempt is made, and the end or the next attempt is what the course says. -/
theorem next_course (i : Nat) (p : Progress) :
    (∃ ended q late, next policy behaviour i p = .inl (ended, q) ∧
      q.calls = p.calls ++ [⟨i, p.now.time, late⟩] ∧
      Course policy behaviour i p.now.time [⟨i, p.now.time, late⟩] q.now.time ended) ∨
    ∃ q time late failure, next policy behaviour i p = .inr q ∧
      q.calls = p.calls ++ [⟨i, p.now.time, late⟩] ∧
      EndsAt policy i p.now.time (behaviour i) time late (.error failure) ∧
      policy.config.maxRetries.le (Double.ofNat i) = false ∧
      policy.accepts ⟨policy.config, i, failure⟩ = true ∧
      q.now.time = passed time (policy.pause ⟨policy.config, i, failure⟩) := by
  have hnow : (p.say policy .debug (numbered i)).now = p.now := Progress.say_now ..
  have hcalls : (p.say policy .debug (numbered i)).calls = p.calls := Progress.say_calls ..
  unfold next
  dsimp only
  cases he : endOf policy behaviour none (p.say policy .debug (numbered i)) i with
  | none =>
    obtain ⟨hlimit, hnever⟩ := limit?_of_endOf he
    rw [hnow] at hnever
    refine .inl ⟨_, _, false, rfl, ?_, ?_⟩
    · simp [Progress.begin]
    · simpa [Progress.begin, hnow] using Course.endless hlimit hnever
  | some e =>
    have hends := endsAt_of_endOf he
    rw [hnow] at hends
    dsimp only
    obtain ⟨htime, -, hmade⟩ := @attempted_spec α policy behaviour
      (p.say policy .debug (numbered i)) i e
    rw [hcalls, hnow] at hmade
    -- From here on only the time and the calls of that progress matter.
    generalize (p.say policy .debug (numbered i)).attempted policy behaviour i e = q at *
    cases hout : e.outcome with
    | ok a =>
      refine .inl ⟨_, _, e.timedOut, rfl, ?_, ?_⟩
      · rw [Progress.say_calls, hmade]
      · rw [Progress.say_now, htime]
        exact .value (hout ▸ hends)
    | error failure =>
      rw [hout] at hends
      dsimp only
      split
      · next hle => exact .inl (giveUp_course (by simp [hmade]) (by simp [htime]) hends (.inl hle))
      · next hle =>
        rw [Bool.not_eq_true] at hle
        split
        · next haccepts =>
          refine .inr ⟨_, _, e.timedOut, failure, rfl, ?_, hends, hle, haccepts, ?_⟩
          · simp [Progress.postponed, Progress.wait, hmade]
          · simp [Progress.postponed, Progress.wait, pending?, Moment.later_time, htime]
        · next haccepts =>
          rw [Bool.not_eq_true] at haccepts
          exact .inl (giveUp_course (by simp [hmade]) (by simp [htime]) hends (.inr haccepts))

/-- There is another attempt only when there may be one. -/
theorem lt_of_next {n i : Nat} (hn : policy.config.maxRetries = Double.ofNat n)
    (hsmall : n < 2 ^ 53) (hi : i ≤ n) {p q : Progress}
    (h : next policy behaviour i p = .inr q) : i < n := by
  obtain ⟨ended, q', late, hq, -⟩ | ⟨q', time, late, failure, -, -, -, hmore, -⟩ :=
    @next_course α policy behaviour i p
  · cases hq.symm.trans h
  · apply lt_of_le_of_ne hi
    intro heq
    rw [(le_ofNat_iff hn hsmall hi).mpr heq] at hmore
    cases hmore

/-- The attempts from one on are a course of their own. There is fuel left for as many as
there can be, so that only the policy ends them. -/
theorem attempts_course {n : Nat} (hn : policy.config.maxRetries = Double.ofNat n)
    (hsmall : n < 2 ^ 53) {fuel i : Nat} (hfuel : n < fuel + i) (hi : i ≤ n) (p : Progress) :
    ∃ calls, (attempts policy behaviour none fuel i p).2.calls = p.calls ++ calls ∧
      Course policy behaviour i p.now.time calls
        (attempts policy behaviour none fuel i p).2.now.time
        (attempts policy behaviour none fuel i p).1 := by
  induction fuel generalizing i p with
  | zero => omega
  | succ fuel ih =>
    rw [attempts_succ]
    obtain ⟨ended, q, late, hq, hcalls, hcourse⟩ |
      ⟨q, time, late, failure, hq, hcalls, hends, hmore, haccepts, hnow⟩ :=
      @next_course α policy behaviour i p
    · rw [hq]
      exact ⟨_, hcalls, hcourse⟩
    · have hlt := lt_of_next hn hsmall hi hq
      obtain ⟨calls, hrest, hcourse⟩ := ih (i := i + 1) (by omega) (by omega) q
      rw [hq]
      refine ⟨⟨i, p.now.time, late⟩ :: calls, ?_, .again hends hmore haccepts (hnow ▸ hcourse)⟩
      rw [Sum.elim_inr, hrest, hcalls, List.append_assoc, List.singleton_append]

variable (policy behaviour) in
/-- An attempt failed and is worth another one, which starts when the delay is over. -/
def Follows (i : Nat) (c c' : Call) : Prop :=
  ∃ time failure, EndsAt policy i c.time (behaviour i) time c.timedOut (.error failure) ∧
    policy.accepts ⟨policy.config, i, failure⟩ = true ∧
    c'.time = passed time (policy.pause ⟨policy.config, i, failure⟩)

variable (policy behaviour) in
/-- What becomes of the last attempt: its value is the result, or its failure is when there
may be no other attempt, or it never ends. -/
def Concludes (most i : Nat) (c : Call) (now : Double) (ended : Ended α) : Prop :=
  (∃ a, EndsAt policy i c.time (behaviour i) now c.timedOut (.ok a) ∧
    ended = .finished (.ok a)) ∨
  (∃ failure, EndsAt policy i c.time (behaviour i) now c.timedOut (.error failure) ∧
    (i = most ∨ policy.accepts ⟨policy.config, i, failure⟩ = false) ∧
    ended = .finished (.error (lastFailure policy failure).2)) ∨
  (policy.limit? = none ∧
    (∀ time late outcome, ¬ EndsAt policy i c.time (behaviour i) time late outcome) ∧
    ended = .never)

/-- From one attempt on, up to the last one. -/
theorem Course.numbered {n i : Nat} {start now : Double} {calls : List Call} {ended : Ended α}
    (hn : policy.config.maxRetries = Double.ofNat n) (hsmall : n < 2 ^ 53) (hi : i ≤ n)
    (h : Course policy behaviour i start calls now ended) :
    ∃ m, i + m ≤ n ∧ calls.map Call.attempt = List.range' i (m + 1) ∧
      calls.head?.map Call.time = some start ∧
      (∀ j < m, ∃ c c', calls[j]? = some c ∧ calls[j + 1]? = some c' ∧
        Follows policy behaviour (i + j) c c') ∧
      ∃ c, calls[m]? = some c ∧ Concludes policy behaviour n (i + m) c now ended := by
  induction h with
  | @endless i start hlimit hnever =>
    exact ⟨0, hi, rfl, rfl, nofun, ⟨i, start, false⟩, rfl, .inr (.inr ⟨hlimit, hnever, rfl⟩)⟩
  | @value i start time late a hends =>
    exact ⟨0, hi, rfl, rfl, nofun, ⟨i, start, late⟩, rfl, .inl ⟨a, hends, rfl⟩⟩
  | @stopped i start time late failure hends hstop =>
    have hlast := hstop.imp_left (le_ofNat_iff hn hsmall hi).mp
    exact ⟨0, hi, rfl, rfl, nofun, ⟨i, start, late⟩, rfl, .inr (.inl ⟨failure, hends, hlast, rfl⟩)⟩
  | @again i start time now late failure calls ended hends hmore haccepts hrest ih =>
    have hne : i ≠ n := by
      rintro rfl
      rw [(le_ofNat_iff hn hsmall hi).mpr rfl] at hmore
      cases hmore
    obtain ⟨m, hm, hnumbers, hhead, hfollow, c, hc, hlast⟩ := ih (by omega)
    have hnext : i + 1 + m = i + (m + 1) := by omega
    refine ⟨m + 1, by omega, ?_, rfl, ?_, c, hc, hnext ▸ hlast⟩
    · rw [List.map_cons, hnumbers, List.range'_succ (n := m + 1)]
    · intro j hj
      cases j with
      | zero =>
        obtain ⟨c', hc', htime⟩ := Option.map_eq_some_iff.mp hhead
        refine ⟨⟨i, start, late⟩, c', rfl, ?_, time, failure, hends, haccepts, htime⟩
        rw [List.getElem?_cons_succ, ← List.head?_eq_getElem?]
        exact hc'
      | succ j =>
        obtain ⟨c₁, c₂, h₁, h₂, hfollows⟩ := hfollow j (by omega)
        have hsucc : i + 1 + j = i + (j + 1) := by omega
        exact ⟨c₁, c₂, h₁, h₂, hsucc ▸ hfollows⟩

/-- Nothing is different but the timers that attempts set for themselves. -/
def Alike (p p' : Progress) : Prop := ∃ timers, p' = { p with timers }

theorem Alike.say {p p' : Progress} (h : Alike p p') (policy : Policy) (level : Log.Level)
    (text : String) (details : Option Json) :
    Alike (p.say policy level text details) (p'.say policy level text details) := by
  obtain ⟨timers, rfl⟩ := h
  refine ⟨timers, ?_⟩
  unfold Progress.say
  split <;> rfl

theorem Alike.attempted {behaviour' : Nat → Behaviour α} {p p' : Progress} (h : Alike p p')
    (i : Nat) (e : End α) :
    Alike (p.attempted policy behaviour i e) (p'.attempted policy behaviour' i e) := by
  obtain ⟨timers, rfl⟩ := h
  unfold Progress.attempted
  split
  · exact Alike.say ⟨_, rfl⟩ ..
  · exact ⟨_, rfl⟩

theorem Alike.postponed {p p' : Progress} (h : Alike p p') (i : Nat) (failure : Thrown) :
    Alike (p.postponed policy i failure) (p'.postponed policy i failure) := by
  obtain ⟨timers, rfl⟩ := h
  unfold Progress.postponed Progress.say
  split <;> exact ⟨timers, rfl⟩

theorem Alike.asked {p p' : Progress} (h : Alike p p') (q : Question) :
    Alike { p with asked := p.asked ++ [q] } { p' with asked := p'.asked ++ [q] } := by
  obtain ⟨timers, rfl⟩ := h
  exact ⟨timers, rfl⟩

theorem Alike.giveUp {p p' : Progress} (h : Alike p p') (i : Nat) (failure : Thrown) :
    ∃ (ended : Ended α) (q q' : Progress), giveUp policy p i failure = (ended, q) ∧
      giveUp policy p' i failure = (ended, q') ∧ Alike q q' := by
  unfold Retry.giveUp
  rcases lastFailure policy failure with ⟨_ | details, failure⟩
  · exact ⟨_, _, _, rfl, rfl, h⟩
  · exact ⟨_, _, _, rfl, rfl, h.say ..⟩

variable (policy) in
/-- One attempt behaves as another one until the limit, if there is one. -/
def SameInTime (start : Double) (b b' : Behaviour α) : Prop :=
  b' = b ∨ (OutOfTime policy start b ∧ OutOfTime policy start b')

theorem Alike.endOf {behaviour' : Nat → Behaviour α} {p p' : Progress} (h : Alike p p') {i : Nat}
    (hsame : SameInTime policy p.now.time (behaviour i) (behaviour' i)) :
    endOf policy behaviour' none p' i = endOf policy behaviour none p i := by
  obtain ⟨timers, rfl⟩ := h
  rcases hsame with heq | ⟨hout, hout'⟩
  · simp only [Retry.endOf, heq]
  · exact (endOf_outOfTime hout hout').symm

/-- Two attempts that are alike until the limit lead to the same. -/
theorem Alike.next {behaviour' : Nat → Behaviour α} {p p' : Progress} (h : Alike p p') {i : Nat}
    (hsame : SameInTime policy p.now.time (behaviour i) (behaviour' i)) :
    (∃ ended q q', next policy behaviour i p = .inl (ended, q) ∧
      next policy behaviour' i p' = .inl (ended, q') ∧ Alike q q') ∨
    ∃ q q', next policy behaviour i p = .inr q ∧ next policy behaviour' i p' = .inr q' ∧
      Alike q q' := by
  have hbegun : Alike (p.say policy .debug (numbered i)) (p'.say policy .debug (numbered i)) :=
    h.say ..
  have hend : Retry.endOf policy behaviour' none (p'.say policy .debug (numbered i)) i =
      Retry.endOf policy behaviour none (p.say policy .debug (numbered i)) i := by
    apply hbegun.endOf
    rwa [Progress.say_now]
  unfold Retry.next
  dsimp only
  rw [hend]
  cases Retry.endOf policy behaviour none (p.say policy .debug (numbered i)) i with
  | none =>
    obtain ⟨timers, ht⟩ := hbegun
    exact .inl ⟨_, _, _, rfl, rfl, _, by rw [ht]; rfl⟩
  | some e =>
    have hended : Alike ((p.say policy .debug (numbered i)).attempted policy behaviour i e)
        ((p'.say policy .debug (numbered i)).attempted policy behaviour' i e) :=
      hbegun.attempted i e
    dsimp only
    cases e.outcome with
    | ok a => exact .inl ⟨_, _, _, rfl, rfl, hended.say ..⟩
    | error failure =>
      dsimp only
      have hfailed := hended.say policy .debug (" failed on attempt #" ++ toString i) none
      split
      · obtain ⟨ended, q, q', hq, hq', hlast⟩ := hfailed.giveUp i failure
        exact .inl ⟨ended, q, q', congrArg Sum.inl hq, congrArg Sum.inl hq', hlast⟩
      · split
        · exact .inr ⟨_, _, rfl, rfl, hfailed.postponed i failure⟩
        · have hasked := hfailed.asked (.accepts ⟨policy.config, i, failure⟩)
          obtain ⟨ended, q, q', hq, hq', hlast⟩ := hasked.giveUp i failure
          exact .inl ⟨ended, q, q', congrArg Sum.inl hq, congrArg Sum.inl hq', hlast⟩

/-- The first call of a course. -/
theorem Course.first {i : Nat} {start now : Double} {calls : List Call} {ended : Ended α}
    (h : Course policy behaviour i start calls now ended) :
    ∃ c ∈ calls, c.attempt = i ∧ c.time = start := by
  cases h <;> exact ⟨_, List.mem_cons_self, rfl, rfl⟩

/-- What attempts would have come to after their limits makes no difference. -/
theorem attempts_alike {behaviour' : Nat → Behaviour α} {n : Nat}
    (hn : policy.config.maxRetries = Double.ofNat n) (hsmall : n < 2 ^ 53) {fuel i : Nat}
    (hfuel : n < fuel + i) (hi : i ≤ n) {p p' : Progress} (hp : Alike p p')
    (hsame : ∀ c ∈ (attempts policy behaviour none fuel i p).2.calls,
      SameInTime policy c.time (behaviour c.attempt) (behaviour' c.attempt)) :
    (attempts policy behaviour' none fuel i p').1 = (attempts policy behaviour none fuel i p).1 ∧
      Alike (attempts policy behaviour none fuel i p).2
        (attempts policy behaviour' none fuel i p').2 := by
  induction fuel generalizing i p p' with
  | zero => omega
  | succ fuel ih =>
    have hnow : SameInTime policy p.now.time (behaviour i) (behaviour' i) := by
      obtain ⟨calls, hcalls, hcourse⟩ := attempts_course hn hsmall hfuel hi p
      obtain ⟨c, hc, rfl, htime⟩ := hcourse.first
      rw [← htime]
      apply hsame c
      rw [hcalls]
      exact List.mem_append_right _ hc
    simp only [attempts_succ] at hsame ⊢
    obtain ⟨ended, q, q', hq, hq', hlast⟩ | ⟨q, q', hq, hq', hlast⟩ := hp.next hnow
    · rw [hq, hq']
      exact ⟨rfl, hlast⟩
    · rw [hq] at hsame
      rw [hq, hq']
      have hlt := lt_of_next hn hsmall hi hq
      exact ih (by omega) (by omega) hlast hsame

theorem lastFailure_of_tellable {failure : Thrown}
    (h : policy.logging = false ∨ failure.isTellable false = true) :
    (lastFailure policy failure).2 = failure := by
  unfold lastFailure
  split
  · next hlog =>
    have htell := h.resolve_left (by simp [hlog])
    obtain ⟨details, hdetails⟩ := Report.ofThrown_ok htell
    rw [hdetails]
  · rfl

theorem mostAttempts_eq {n : Nat} (hsmall : n < 2 ^ 53) {c : Config}
    (hn : c.maxRetries = Double.ofNat n) : mostAttempts c = n + 2 := by
  have hwhole : (Double.ofNat n).truncate? = some (n : Int) := by
    rw [Double.ofNat_eq hsmall, Double.truncate?, Rat.num_natCast, Rat.den_natCast, Nat.cast_one,
      Int.tdiv_one]
  rw [mostAttempts, hn, hwhole]
  rfl

end Attempts

/-- A run that nobody aborts makes its attempts in turn, none more than it may: each but the
last failed and is followed by the next one when the timer of the delay is over. The last one
decides the result. A failure that no report can tell is replaced when there is a log. With a limit
the run comes to an end, and what attempts come to after their limits changes nothing. -/
theorem run_outcome {α : Type} (policy : Policy) (behaviour : Nat → Behaviour α) {n : Nat}
    (hn : policy.config.maxRetries = Double.ofNat n) (hsmall : n < 2 ^ 53) :
    let r := run policy behaviour none
    (∃ m ≤ n, r.2.calls.map Call.attempt = List.range (m + 1) ∧
      r.2.calls.head?.map Call.time = some 0 ∧
      (∀ i < m, ∃ c c', r.2.calls[i]? = some c ∧ r.2.calls[i + 1]? = some c' ∧
        ∃ time failure, EndsAt policy i c.time (behaviour i) time c.timedOut (.error failure) ∧
          policy.accepts ⟨policy.config, i, failure⟩ = true ∧
          c'.time = passed time (policy.timer (policy.delay ⟨policy.config, i, failure⟩))) ∧
      ∃ c, r.2.calls[m]? = some c ∧
        ((∃ a, EndsAt policy m c.time (behaviour m) r.2.now.time c.timedOut (.ok a) ∧
            r.1 = .finished (.ok a)) ∨
          (∃ failure, EndsAt policy m c.time (behaviour m) r.2.now.time c.timedOut
              (.error failure) ∧
            (m = n ∨ policy.accepts ⟨policy.config, m, failure⟩ = false) ∧
            r.1 = .finished (.error (lastFailure policy failure).2)) ∨
          (policy.limit? = none ∧
            (∀ time late outcome, ¬ EndsAt policy m c.time (behaviour m) time late outcome) ∧
            r.1 = .never))) ∧
    (∀ failure : Thrown, policy.logging = false ∨ failure.isTellable false = true →
      (lastFailure policy failure).2 = failure) ∧
    (∀ i, (lastFailure policy (overdue policy i)).2 = overdue policy i) ∧
    (∀ a d : Nat, a + d < 2 ^ 53 →
      passed (Double.ofNat a) (Double.ofNat d) = Double.ofNat (a + d)) ∧
    (∀ d < 2 ^ 53, platformTimer (Double.ofNat d) =
      Double.ofNat (if 1 ≤ d ∧ d ≤ 2147483647 then d else 1)) ∧
    (∀ i failure, doublingDelay ⟨policy.config, i, failure⟩ =
      Double.ofNat (min (50 * 2 ^ i) 1000)) ∧
    (policy.limit? ≠ none → ∃ outcome, r.1 = .finished outcome) ∧
    (∀ behaviour' : Nat → Behaviour α,
      (∀ c ∈ r.2.calls, SameInTime policy c.time (behaviour c.attempt) (behaviour' c.attempt)) →
      ∃ timers, run policy behaviour' none = (r.1, { r.2 with timers })) := by
  intro r
  have hfuel : n < mostAttempts policy.config + 0 := by
    rw [mostAttempts_eq hsmall hn]
    omega
  obtain ⟨calls, hcalls, hcourse⟩ :=
    @attempts_course α policy behaviour n hn hsmall _ 0 hfuel (Nat.zero_le n) {}
  obtain ⟨m, hm, hnumbers, hhead, hfollows, c, hc, hlast⟩ :=
    hcourse.numbered hn hsmall (Nat.zero_le n)
  have hrun : r.2.calls = calls := hcalls
  simp only [Nat.zero_add] at hm hfollows hlast
  refine ⟨⟨m, hm, ?_, ?_, ?_, c, ?_, hlast⟩, fun failure => lastFailure_of_tellable,
    fun i => lastFailure_of_tellable (.inr rfl), fun a d => passed_whole,
    fun d => platformTimer_ofNat, fun i failure => rfl,
    fun hlimit => ?_, fun behaviour' hsame => ?_⟩
  · rw [hrun, hnumbers, List.range_eq_range']
  · rw [hrun]
    exact hhead
  · rw [hrun]
    exact hfollows
  · rw [hrun]
    exact hc
  · rcases hlast with ⟨a, -, hend⟩ | ⟨failure, -, -, hend⟩ | ⟨hnone, -⟩
    · exact ⟨_, hend⟩
    · exact ⟨_, hend⟩
    · exact absurd hnone hlimit
  · obtain ⟨hended, timers, htimers⟩ :=
      attempts_alike hn hsmall hfuel (Nat.zero_le n) ⟨_, rfl⟩ hsame
    exact ⟨timers, Prod.ext hended htimers⟩

/-- The first attempt hangs, the second one fails, and the third one succeeds. -/
def hangsThenFails : Nat → Behaviour Nat
  | 0 => .hangs
  | 1 => .ends (some (.finite 3)) (.error (.plain .plain "unreachable"))
  | _ => .ends none (.ok 7)

def limited : Policy :=
  { config := { maxRetries := Double.ofNat 2, timeout := .finite 5 }
    delay := doublingDelay, accepts := isRetryable }

theorem run_outcome_limited :
    limited.config.maxRetries = Double.ofNat 2 ∧ (2 : Nat) < 2 ^ 53 ∧
      (∃ m ≤ 2, (run limited hangsThenFails none).2.calls.map Call.attempt = List.range (m + 1)) ∧
      ∃ outcome, (run limited hangsThenFails none).1 = .finished outcome := by
  have hn : limited.config.maxRetries = Double.ofNat 2 := by simp only [limited]
  have hlimit : limited.limit? ≠ none := by decide
  obtain ⟨⟨m, hm, hcalls, -⟩, -, -, -, -, -, hends, -⟩ :=
    run_outcome limited hangsThenFails hn (by decide)
  exact ⟨hn, by decide, ⟨m, hm, hcalls⟩, hends hlimit⟩

/-- The only attempt fails with an object that holds a big integer; the result is the fault of
the report. -/
theorem untellable_failure_replaced :
    let policy : Policy :=
      { config := { maxRetries := 0 }, delay := doublingDelay, accepts := isRetryable }
    let failure : Thrown := .object none [("count", .bigint 1)]
    let behaviour : Nat → Behaviour Nat := fun _ => .ends none (.error failure)
    EndsAt policy 0 0 (behaviour 0) 0 false (.error failure) ∧
      (run policy behaviour none).2.calls.map Call.attempt = [0] ∧
      (run policy behaviour none).1 = .finished (.error (.platform .bigInteger)) := by
  intro policy failure behaviour
  have hn : policy.config.maxRetries = Double.ofNat 0 := rfl
  have hle : policy.config.maxRetries.le (Double.ofNat 0) = true := by decide
  have hfault : lastFailure policy failure = (none, .platform .bigInteger) := rfl
  have hrun : run policy behaviour none = (next policy behaviour 0 {}).elim id
      (attempts policy behaviour none 1 1) := by
    rw [run, mostAttempts_eq (by decide) hn, attempts_succ]
  have hnext : ∃ p, next policy behaviour 0 {} =
      .inl (.finished (.error (.platform .bigInteger)), p) ∧ p.calls.map Call.attempt = [0] := by
    simp only [next, endOf, behaviour, hle, if_true, giveUp, hfault]
    exact ⟨_, rfl, rfl⟩
  obtain ⟨p, hp, hcalls⟩ := hnext
  rw [hrun, hp]
  exact ⟨.atOnce _, hcalls, rfl⟩

end Bearer.Retry
