import Bearer.Proofs.Cache.Course
import Bearer.Proofs.Cache.SingleFlight

namespace Bearer.Cache

namespace State
variable (set : Settings)

def installs? (s : State) : Event → Option Token
  | .process k =>
    match s.stage? k with
    | some (.settled (.ok token)) => some token
    | _ => none
  | _ => none

theorem installs?_eq_some {s : State} {e : Event} {t : Token} (h : s.installs? e = some t) :
    ∃ k, e = .process k ∧ s.stage? k = some (.settled (.ok t)) := by
  cases e with
  | process k =>
    simp only [installs?] at h
    split at h
    · next token hk =>
      cases h
      exact ⟨k, rfl, hk⟩
    · cases h
  | _ => cases h

@[simp] theorem token_joinSlot (s : State) (c : CallerId) : (s.joinSlot c).token = s.token := by
  unfold joinSlot
  split <;> rfl

@[simp] theorem token_clear (s : State) (k : RefreshId) : (s.clear k).token = s.token := by
  unfold clear
  split <;> rfl

@[simp] theorem token_finish (s : State) (k : RefreshId) (outcome : Result Token) :
    (s.finish set k outcome).1.token = s.token := rfl

@[simp] theorem token_notifyNext (s : State) (k : RefreshId) (token : Token)
    (left : List ListenerId) : (s.notifyNext set k token left).1.token = s.token := by
  cases left <;> rfl

@[simp] theorem token_opened (s : State) (e : Event) : (s.opened set e).1.token = s.token := by
  unfold opened
  split <;> simp

theorem token_call (s : State) (e : Event) (c : CallerId) (hc : e.caller? = some c) :
    (step set e s).1.token = s.token := by
  rw [step_call set s e c hc]
  cases s.reply? e <;> simp

theorem token_step (s : State) (e : Event) :
    (step set e s).1.token = (s.installs? e).or s.token := by
  cases e with
  | fetch | refresh | refreshIfExpired => exact token_call set s _ _ rfl
  | launch k =>
    simp only [step, launch, installs?]
    split <;> rfl
  | settle k outcome =>
    simp only [step, settle, installs?]
    split <;> rfl
  | process k =>
    simp only [step, process, installs?]
    split
    · next token hk => simp [hk]
    · next failure hk => simp [hk]
    · next hok _ =>
      split
      · next token hk => exact absurd hk (hok token)
      · rfl
  | listenerDone k failure =>
    cases hk : s.stage? k with
    | none => simp [step, listenerDone, hk, installs?]
    | some stage =>
      cases stage with
      | notifying token l rest =>
        simp only [step, listenerDone_eq set s k failure token l rest hk, installs?]
        split <;> simp
      | _ => simp [step, listenerDone, hk, installs?]
  | listen l => rfl
  | abort caller reason =>
    simp only [step, abort, installs?]
    split <;> rfl
  | callbackFailed failure => rfl

theorem Processed.installs {s : State} {es : List Event} {p : Nat} {k : RefreshId} {t : Token}
    (h : s.Processed set es p k (.ok t)) : (s.moment set es (p + 1)).token = some t := by
  rw [moment_succ set s es p _ h.1, token_step]
  simp [installs?, h.2]

theorem token_moment_succ (s : State) (es : List Event) (n : Nat) :
    (∃ k t, s.Processed set es n k (.ok t)) ∨
      (s.moment set es (n + 1)).token = (s.moment set es n).token := by
  cases he : es[n]? with
  | none => exact .inr (by rw [moment_succ_of_none set s es n he])
  | some e =>
    rw [moment_succ set s es n e he, token_step]
    cases hi : (s.moment set es n).installs? e with
    | none => exact .inr rfl
    | some t =>
      obtain ⟨k, rfl, hk⟩ := installs?_eq_some hi
      exact .inl ⟨k, t, he, hk⟩

/-- What is cached at some moment of a run is the token of the success processed last, or
the token there was at the beginning. -/
theorem token_moment (s : State) (es : List Event) (n : Nat) :
    (∃ p k t, p < n ∧ s.Processed set es p k (.ok t) ∧
      (∀ q j u, p < q → q < n → ¬ s.Processed set es q j (.ok u)) ∧
      (s.moment set es n).token = some t) ∨
    ((∀ p k t, p < n → ¬ s.Processed set es p k (.ok t)) ∧
      (s.moment set es n).token = s.token) := by
  induction n with
  | zero => exact .inr ⟨fun p k t hp => absurd hp (Nat.not_lt_zero p), rfl⟩
  | succ n ih =>
    by_cases hnow : ∃ k t, s.Processed set es n k (.ok t)
    · obtain ⟨k, t, h⟩ := hnow
      refine .inl ⟨n, k, t, Nat.lt_succ_self n, h, fun q j u hq hqn => ?_, h.installs set⟩
      omega
    · have hsame := (token_moment_succ set s es n).resolve_left hnow
      have hquiet : ∀ q j u, q < n + 1 → ¬ q < n → ¬ s.Processed set es q j (.ok u) := by
        intro q j u hq hqn h
        obtain rfl : q = n := by omega
        exact hnow ⟨j, u, h⟩
      rw [hsame]
      rcases ih with ⟨p, k, t, hpn, hp, hlast, htoken⟩ | ⟨hnone, htoken⟩
      · refine .inl ⟨p, k, t, Nat.lt_succ_of_lt hpn, hp, fun q j u hq hqn => ?_, htoken⟩
        by_cases h : q < n
        · exact hlast q j u hq h
        · exact hquiet q j u hqn h
      · refine .inr ⟨fun p k t hp => ?_, htoken⟩
        by_cases h : p < n
        · exact hnone p k t h
        · exact hquiet p k t hp h

/-- Successes are processed in the order in which their refreshes were started. -/
def InStartOrder (s : State) (es : List Event) : Prop :=
  ∀ p q j k t u, s.Processed set es p j (.ok t) → s.Processed set es q k (.ok u) → j < k → p < q

variable {set}

theorem isOpen_of_started {s : State} {k : RefreshId} (hk : k < s.refreshes.length)
    (hp : s.isProcessed k = false) : s.isOpen k = true := by
  cases hs : s.stage? k with
  | none => exact absurd hk (Nat.not_lt_of_le ((stage?_eq_none s k).mp hs))
  | some stage =>
    cases stage with
    | held | working | settled => simp [isOpen, hs, Stage.isOpen]
    | notifying | finished => simp [isProcessed, hs, Stage.isProcessed] at hp

/-- Where no refresh is forced no two of them overlap. -/
theorem inStartOrder_of_unforced {token : Option Token} {es : List Event}
    (hf : ∀ e ∈ es, e.isForced = false) : (initial token).InStartOrder set es := by
  intro p q j k t u hj hk hjk
  refine Nat.lt_of_not_le fun hqp => ?_
  -- When k is processed first, j is open still, and both would be in the slot.
  have hkopen : ((initial token).moment set es q).isOpen k = true := by
    simp [isOpen, hk.2, Stage.isOpen]
  have hjopen : ((initial token).moment set es q).isOpen j = true :=
    isOpen_of_started (Nat.lt_trans hjk (lt_of_isOpen _ k hkopen))
      (not_isProcessed_moment set _ es j hqp hj.before)
  have hslot := openInSlot_after set token (es.take q)
    (fun e he => hf e (List.mem_of_mem_take he))
  have hsame : j = k := Option.some.inj ((hslot j hjopen).symm.trans (hslot k hkopen))
  exact Nat.ne_of_lt hjk hsame

/-- Among successes processed in that order the last one was started last. -/
theorem token_of_inStartOrder {s : State} {es : List Event} (horder : s.InStartOrder set es)
    {p : Nat} {k : RefreshId} {t : Token} (h : s.Processed set es p k (.ok t))
    (hlatest : ∀ q j u, s.Processed set es q j (.ok u) → j ≤ k) :
    (s.after set es).token = some t := by
  rw [← moment_length]
  rcases token_moment set s es es.length with ⟨q, j, u, -, hq, hlast, htoken⟩ | ⟨hnone, -⟩
  · have hpq : ¬ q < p := fun hlt => hlast p k t hlt h.lt_length h
    have hjk : ¬ j < k := fun hlt => hpq (horder q p j k u t hq h hlt)
    obtain rfl : j = k := Nat.le_antisymm (hlatest q j u hq) (Nat.le_of_not_lt hjk)
    obtain ⟨-, hsame⟩ := hq.unique h
    cases hsame
    exact htoken
  · exact absurd h (hnone p k t h.lt_length)

end State

open State in
/-- Every success that is processed puts its token into the cache, also that of a refresh
that a newer one has overtaken. What is cached is the token of the success whose refresh
was started last if successes are processed in the order of the starts; they are where no
refresh is forced, for then no two overlap. -/
theorem cached_token_latest_started (set : Settings) (token : Option Token) (es : List Event) :
    (∀ p k t, (initial token).Processed set es p k (.ok t) →
      ((initial token).moment set es (p + 1)).token = some t) ∧
    ((initial token).InStartOrder set es →
      ∀ p k t, (initial token).Processed set es p k (.ok t) →
        (∀ q j u, (initial token).Processed set es q j (.ok u) → j ≤ k) →
        ((initial token).after set es).token = some t) ∧
    ((∀ e ∈ es, e.isForced = false) → (initial token).InStartOrder set es) := by
  refine ⟨fun p k t h => h.installs set, ?_, inStartOrder_of_unforced⟩
  intro horder p k t h hlatest
  exact token_of_inStartOrder horder h hlatest

/-- Two forced refreshes overlap, and the older one settles first. -/
def inTurn : List Event :=
  [.refresh 10 none, .refresh 11 none, .settle 0 (.ok ⟨"older", .never⟩), .process 0,
    .settle 1 (.ok ⟨"newer", .never⟩), .process 1]

open State in
theorem cached_token_latest_started_overlapping :
    (initial none).InStartOrder {} inTurn ∧
    ((initial none).after {} inTurn).token = some ⟨"newer", .never⟩ := by
  have hcases : ∀ p k t, (initial none).Processed {} inTurn p k (.ok t) →
      (p = 3 ∧ k = 0) ∨ (p = 5 ∧ k = 1) := by
    intro p k t h
    rcases p with _ | _ | _ | _ | _ | _ | p <;> cases h.1
    · exact .inl ⟨rfl, rfl⟩
    · exact .inr ⟨rfl, rfl⟩
  have horder : (initial none).InStartOrder {} inTurn := by
    intro p q j k t u hj hk hjk
    obtain ⟨rfl, rfl⟩ | ⟨rfl, rfl⟩ := hcases q k u hk
    · exact absurd hjk (Nat.not_lt_zero j)
    · obtain ⟨rfl, -⟩ | ⟨-, rfl⟩ := hcases p j t hj
      · decide
      · exact absurd hjk (Nat.lt_irrefl 1)
  obtain ⟨-, hlatest, -⟩ := cached_token_latest_started {} none inTurn
  refine ⟨horder, hlatest horder 5 1 _ ⟨rfl, rfl⟩ fun q j u h => ?_⟩
  obtain ⟨-, rfl⟩ | ⟨-, rfl⟩ := hcases q j u h <;> decide

/-- The same two, but the older one settles last. -/
def lateSuccess : List Event :=
  [.refresh 10 none, .refresh 11 none, .settle 1 (.ok ⟨"newer", .never⟩), .process 1,
    .settle 0 (.ok ⟨"older", .never⟩), .process 0]

open State in
/-- The token of the older refresh takes the place of the newer one's, and stays when both
are over. -/
theorem late_success_overwrites :
    (initial none).Processed {} lateSuccess 3 1 (.ok ⟨"newer", .never⟩) ∧
    ((initial none).moment {} lateSuccess 4).token = some ⟨"newer", .never⟩ ∧
    (initial none).Processed {} lateSuccess 5 0 (.ok ⟨"older", .never⟩) ∧
    ((initial none).after {} lateSuccess).token = some ⟨"older", .never⟩ ∧
    ((initial none).after {} lateSuccess).refreshes.map Refresh.stage =
      [.finished (.ok ⟨"older", .never⟩), .finished (.ok ⟨"newer", .never⟩)] :=
  ⟨⟨rfl, rfl⟩, rfl, ⟨rfl, rfl⟩, rfl, rfl⟩

end Bearer.Cache
