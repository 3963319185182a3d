import Bearer.Proofs.Cache.Signals

namespace Bearer.Cache

namespace State
variable (set : Settings)

/-- One event is the only call of a caller in a run. -/
def OnlyCall (es : List Event) (i : Nat) (e : Event) (c : CallerId) : Prop :=
  es[i]? = some e ∧ e.caller? = some c ∧
    ∀ n f, es[n]? = some f → f.caller? = some c → n = i

/-- A caller's signal is aborted for the first time. -/
def FirstAbort (es : List Event) (m : Nat) (c : CallerId) (reason : Thrown) : Prop :=
  es[m]? = some (.abort c reason) ∧ ∀ n r, n < m → es[n]? ≠ some (.abort c r)

/-- What a call waits for has settled, if it waits for anything. -/
def WaitOver (s : State) (es : List Event) (i m : Nat) (c : CallerId) : Prop :=
  ∀ k, c ∈ (s.moment set es (i + 1)).waitersOf k →
    ∃ outcome, (s.moment set es m).stage? k = some (.finished outcome)

theorem abort_or_call {e : Event} {c : CallerId} (h : e.signalled? = some c) :
    (∃ reason, e = .abort c reason) ∨ (e.caller? = some c ∧ e.aborted?.isSome) := by
  cases e with
  | abort d reason =>
    cases h
    exact .inl ⟨reason, rfl⟩
  | fetch d how first second aborted | refresh d aborted | refreshIfExpired d reading aborted =>
    cases aborted with
    | none => cases h
    | some reason => exact .inr ⟨h, rfl⟩
  | _ => cases h

theorem not_waits_initial (token : Option Token) (c : CallerId) :
    (initial token).waits c = false := rfl

theorem OnlyCall.take {es : List Event} {i m : Nat} {e : Event} {c : CallerId}
    (h : OnlyCall es i e c) (hi : i < m) : OnlyCall (es.take m) i e c := by
  obtain ⟨he, hc, honly⟩ := h
  refine ⟨by rw [List.getElem?_take_of_lt hi, he], hc, fun n f hf hcf => ?_⟩
  obtain ⟨hn, -⟩ := List.getElem?_eq_some_iff.mp hf
  rw [List.getElem?_take_of_lt (by simp at hn; omega)] at hf
  exact honly n f hf hcf

theorem OnlyCall.drop {es : List Event} {i m : Nat} {e : Event} {c : CallerId}
    (h : OnlyCall es i e c) (hi : i < m) : ∀ f ∈ es.drop m, f.caller? ≠ some c := by
  intro f hf hcf
  obtain ⟨n, hmn, hn⟩ := event_of_drop hf
  have hni := h.2.2 n f hn hcf
  omega

/-- Before its call nothing is heard of a caller. -/
theorem OnlyCall.silent_before {es : List Event} {i : Nat} {e : Event} {c : CallerId}
    (h : OnlyCall es i e c) (token : Option Token) :
    answersTo c ((initial token).effects set (es.take i)) = [] ∧
      ((initial token).moment set es i).waits c = false := by
  refine silent set (not_waits_initial token c) fun f hf hcf => ?_
  obtain ⟨n, hni, hn⟩ := event_of_take hf
  exact absurd (h.2.2 n f hn hcf) (Nat.ne_of_lt hni)

/-- All that a caller hears it hears from its call on. -/
theorem OnlyCall.answers {es : List Event} {i : Nat} {e : Event} {c : CallerId}
    (h : OnlyCall es i e c) (token : Option Token) :
    answersTo c ((initial token).effects set es) =
      answersTo c (((initial token).moment set es i).effects set (es.drop i)) := by
  rw [effects_split set _ es i, answersTo_append, (h.silent_before set token).1, List.nil_append]

theorem replied {s : State} {e : Event} {c : CallerId} {reply : Result (Option Token)}
    (hidle : s.waits c = false) (hc : e.caller? = some c) (hr : s.reply? e = some reply) :
    answersTo c (step set e s).2 = [reply] ∧ (step set e s).1.waits c = false := by
  refine ⟨by simp [answersTo_call set s e c hc, hr], not_waits_of_count fun k => ?_⟩
  simp [waitersOf_call set s e c hc, hr, count_of_not_waits hidle]

theorem reply_of_aborted (s : State) {e : Event} {reason : Thrown}
    (ha : e.aborted? = some reason) (hforce : ∀ c now a, e ≠ .refreshIfExpired c now a) :
    s.reply? e = some (denial reason) := by
  cases e with
  | fetch c how first second aborted =>
    obtain rfl : aborted = some reason := ha
    simp only [reply?]
    split <;> rfl
  | refresh c aborted =>
    obtain rfl : aborted = some reason := ha
    rfl
  | refreshIfExpired c now aborted => exact absurd rfl (hforce c now aborted)
  | _ => cases ha

/-- Whoever called while its signal was aborted already is turned away. -/
theorem OnlyCall.denied_at_once {es : List Event} {i : Nat} {e : Event} {c : CallerId}
    (h : OnlyCall es i e c) (token : Option Token) {reason : Thrown}
    (ha : e.aborted? = some reason) (hforce : ∀ c now a, e ≠ .refreshIfExpired c now a) :
    answersTo c ((initial token).effects set es) = [denial reason] := by
  obtain ⟨hreply, hgone⟩ := replied set (h.silent_before set token).2 h.2.1
    (reply_of_aborted _ ha hforce)
  rw [← moment_succ set _ es i e h.1] at hgone
  have hrest := (silent set hgone (h.drop (Nat.lt_succ_self i))).1
  rw [h.answers set token, effects_drop set _ es i e h.1, answersTo_append, hreply, hrest]
  rfl

/-- Without an abort, a caller waits at the end, or what it waited for is over. -/
theorem OnlyCall.waits_or_over {es : List Event} {i : Nat} {e : Event} {c : CallerId}
    (h : OnlyCall es i e c) (token : Option Token) (hnone : ∀ r, .abort c r ∉ es) :
    (answersTo c ((initial token).effects set es) = [] ∧
      ((initial token).after set es).waits c = true ∧
      ¬ WaitOver set (initial token) es i es.length c) ∨
    (((initial token).after set es).waits c = false ∧
      WaitOver set (initial token) es i es.length c) := by
  obtain ⟨-, hidle⟩ := h.silent_before set token
  have hcalls := h.drop (Nat.lt_succ_self i)
  by_cases hjoins : ∃ k, c ∈ ((initial token).moment set es (i + 1)).waitersOf k
  · obtain ⟨k, hk⟩ := hjoins
    have hother : ∀ f ∈ es.drop (i + 1), f.party? ≠ some c := by
      intro f hf hp
      cases f with
      | abort d reason =>
        obtain rfl := Option.some.inj hp
        exact hnone reason (List.mem_of_mem_drop hf)
      | _ => exact hcalls _ hf hp
    rcases since_call set h.1 h.2.1 hidle hk hother with
      ⟨hnil, hwaiting⟩ | ⟨outcome, -, hover, hgone⟩
    · have hc : c ∈ ((initial token).after set es).waitersOf k :=
        List.count_pos_iff.mp (by simp [hwaiting k])
      refine .inl ⟨?_, (waits_iff _ c).mpr ⟨k, hc⟩, fun hover => ?_⟩
      · rw [h.answers set token, hnil]
      · obtain ⟨outcome, hfinished⟩ := hover k hk
        rw [moment_length] at hfinished
        simp [finishedAlone_after set token es k outcome hfinished] at hc
    · refine .inr ⟨hgone, fun j hj => ⟨outcome, ?_⟩⟩
      have honce := waitsOnce_at h.1 h.2.1 hidle hk
      rw [moment_length, honce.unique hj, hover]
  · have hidle' : ((initial token).moment set es (i + 1)).waits c = false := by
      refine Bool.eq_false_iff.mpr fun hw => hjoins ?_
      exact (waits_iff _ c).mp hw
    have hgone := (silent set hidle' hcalls).2
    rw [after_drop] at hgone
    exact .inr ⟨hgone, fun k hk => absurd ⟨k, hk⟩ hjoins⟩

theorem OnlyCall.before_abort {es : List Event} {i m : Nat} {e : Event} {c : CallerId}
    {reason : Thrown} (h : OnlyCall es i e c) (token : Option Token) (hi : i < m)
    (hm : FirstAbort es m c reason) :
    (answersTo c ((initial token).effects set (es.take m)) = [] ∧
      ((initial token).moment set es m).waits c = true ∧
      ¬ WaitOver set (initial token) es i m c) ∨
    (((initial token).moment set es m).waits c = false ∧
      WaitOver set (initial token) es i m c) := by
  have hnone : ∀ r, .abort c r ∉ es.take m := by
    intro r hr
    obtain ⟨n, hnm, hn⟩ := event_of_take hr
    exact hm.2 n r hnm hn
  have hover : WaitOver set (initial token) (es.take m) i (es.take m).length c ↔
      WaitOver set (initial token) es i m c := by
    unfold WaitOver
    rw [moment_take set _ es hi, moment_length]
    rfl
  have hcases := (h.take hi).waits_or_over set token hnone
  rwa [hover] at hcases

/-- Whoever is aborted while it waits is turned away. -/
theorem OnlyCall.denied_later {es : List Event} {i m : Nat} {e : Event} {c : CallerId}
    {reason : Thrown} (h : OnlyCall es i e c) (token : Option Token) (hi : i < m)
    (hm : FirstAbort es m c reason) (hwait : ¬ WaitOver set (initial token) es i m c) :
    answersTo c ((initial token).effects set es) = [denial reason] := by
  rcases h.before_abort set token hi hm with ⟨hnil, hwaits, -⟩ | ⟨-, hover⟩
  · have hdenied : answersTo c (step set (.abort c reason) ((initial token).moment set es m)).2 =
        [denial reason] := by
      simp [answersTo_abort, hwaits]
    have hgone : ((initial token).moment set es (m + 1)).waits c = false := by
      refine not_waits_of_count fun k => ?_
      rw [moment_succ set _ es m _ hm.1, waitersOf_abort]
      exact List.count_eq_zero.mpr (by simp)
    have hrest := (silent set hgone (h.drop (Nat.lt_succ_of_lt hi))).1
    rw [effects_split set _ es m, effects_drop set _ es m _ hm.1, answersTo_append,
      answersTo_append, hnil, hdenied, hrest]
    rfl
  · exact absurd hover hwait

/-- An abort after the answer comes too late. -/
theorem OnlyCall.answered_before {es : List Event} {i m : Nat} {e : Event} {c : CallerId}
    {reason : Thrown} (h : OnlyCall es i e c) (token : Option Token) (hi : i < m)
    (hm : FirstAbort es m c reason) (hover : WaitOver set (initial token) es i m c) :
    answersTo c ((initial token).effects set es) =
        answersTo c ((initial token).effects set (es.take m)) ∧
      ((initial token).moment set es m).waits c = false := by
  rcases h.before_abort set token hi hm with ⟨-, -, hwait⟩ | ⟨hgone, -⟩
  · exact absurd hover hwait
  · have hrest := (silent set hgone (h.drop hi)).1
    rw [effects_split set _ es m, answersTo_append, hrest, List.append_nil]
    exact ⟨rfl, hgone⟩

/-- The answer that comes before an abort is the one that comes without a signal. -/
theorem OnlyCall.same_answer {es es' : List Event} {i m : Nat} {e : Event} {c : CallerId}
    {reason : Thrown} (h : OnlyCall es i e c) (token : Option Token) (hi : i < m)
    (ha : e.aborted? = none) (hm : FirstAbort es m c reason)
    (hover : WaitOver set (initial token) es i m c)
    (hsame : es.filterMap Event.unsignalled = es'.filterMap Event.unsignalled)
    (hplain : ∀ f ∈ es', f.signalled? ≠ some c) :
    answersTo c ((initial token).effects set es) =
      answersTo c ((initial token).effects set es') := by
  obtain ⟨hanswers, hgone⟩ := h.answered_before set token hi hm hover
  obtain ⟨m', hbefore, hrest⟩ := same_prefix hsame m
  -- Up to the abort the caller is one of those without a signal in both runs.
  let hidden (d : CallerId) : Bool := d ≠ c
  have hc : hidden c = false := by simp [hidden]
  have hsignals : ∀ f ∈ es.take m, ∀ d, f.signalled? = some d → hidden d = true := by
    intro f hf d hd
    have hne : d ≠ c := by
      rintro rfl
      obtain ⟨n, hnm, hn⟩ := event_of_take hf
      rcases abort_or_call hd with ⟨r, rfl⟩ | ⟨hcall, hsome⟩
      · exact hm.2 n r hnm hn
      · obtain rfl := h.2.2 n f hn hcall
        obtain rfl := Option.some.inj (hn.symm.trans h.1)
        simp [ha] at hsome
    simp [hidden, hne]
  have hsignals' : ∀ f ∈ es'.take m', ∀ d, f.signalled? = some d → hidden d = true := by
    intro f hf d hd
    have hne : d ≠ c := by
      rintro rfl
      exact hplain f (List.mem_of_mem_take hf) hd
    simp [hidden, hne]
  obtain ⟨hafter, heffects⟩ := runs_alike set (s := initial token) hbefore hsignals hsignals'
  have hgone' : ((initial token).moment set es' m').waits c = false := by
    rw [← hgone, moment, moment, ← waits_without _ c hc, ← hafter, waits_without _ c hc]
  have hlast := (silent set hgone' (same_callers hrest (h.drop hi))).1
  rw [hanswers, effects_split set _ es' m', answersTo_append, hlast, List.append_nil,
    ← answersTo_visible c hc, heffects, answersTo_visible c hc]

end State

open State in
/-- Two runs that differ in signals only go through the same states, and all that is
started, called, logged and answered is the same but for the answers to those who have
the signals. A caller whose signal was aborted before its call, or before what it waits
for had settled, is turned away with the reason; otherwise its answer is the one that
it gets without a signal. -/
theorem abort_private (set : Settings) (token : Option Token) (hidden : CallerId → Bool)
    (es es' : List Event)
    (hsame : es.filterMap Event.unsignalled = es'.filterMap Event.unsignalled)
    (hsignals : ∀ e ∈ es, ∀ c, e.signalled? = some c → hidden c = true)
    (hsignals' : ∀ e ∈ es', ∀ c, e.signalled? = some c → hidden c = true) :
    let s := initial token
    (∀ n, ∃ n',
      (es.take n).filterMap Event.unsignalled = (es'.take n').filterMap Event.unsignalled ∧
      (s.moment set es n).Alike (s.moment set es' n') ∧
      visible hidden (s.effects set (es.take n)) = visible hidden (s.effects set (es'.take n'))) ∧
    visible hidden (s.effects set es) = visible hidden (s.effects set es') ∧
    (∀ c, hidden c = false →
      answersTo c (s.effects set es) = answersTo c (s.effects set es')) ∧
    ∀ i e c, OnlyCall es i e c →
      (∀ reason, e.aborted? = some reason → (∀ d now a, e ≠ .refreshIfExpired d now a) →
        answersTo c (s.effects set es) = [denial reason]) ∧
      ∀ m reason, i < m → FirstAbort es m c reason → e.aborted? = none →
        (¬ s.WaitOver set es i m c → answersTo c (s.effects set es) = [denial reason]) ∧
        (s.WaitOver set es i m c → (∀ f ∈ es', f.signalled? ≠ some c) →
          answersTo c (s.effects set es) = answersTo c (s.effects set es')) := by
  intro s
  have hall := (runs_alike set (s := s) hsame hsignals hsignals').2
  refine ⟨fun n => ?_, hall, fun c hc => ?_, fun i e c h => ⟨?_, ?_⟩⟩
  · obtain ⟨n', hprefix, -⟩ := same_prefix hsame n
    obtain ⟨hafter, heffects⟩ := runs_alike set (s := s) hprefix
      (fun e he => hsignals e (List.mem_of_mem_take he))
      (fun e he => hsignals' e (List.mem_of_mem_take he))
    exact ⟨n', hprefix, alike_of_without hafter, heffects⟩
  · rw [← answersTo_visible c hc, hall, answersTo_visible c hc]
  · intro reason ha hforce
    exact h.denied_at_once set token ha hforce
  · intro m reason hi hm ha
    exact ⟨fun hwait => h.denied_later set token hi hm hwait,
      fun hover hplain => h.same_answer set token hi ha hm hover hsame hplain⟩

/-- Of two who wait for one refresh the second is aborted. -/
def secondAborted : List Event :=
  [.refresh 10 none, .fetch 11 .now 0 0 none, .abort 11 (.string "cancelled"),
    .settle 0 (.ok ⟨"fresh", .never⟩), .process 0]

def secondPatient : List Event :=
  [.refresh 10 none, .fetch 11 .now 0 0 none, .settle 0 (.ok ⟨"fresh", .never⟩), .process 0]

open State in
theorem abort_private_second :
    answersTo 10 ((initial none).effects {} secondAborted) =
      answersTo 10 ((initial none).effects {} secondPatient) ∧
    answersTo 11 ((initial none).effects {} secondAborted) = [denial (.string "cancelled")] := by
  have hsignals : ∀ e ∈ secondAborted, ∀ c, e.signalled? = some c → (c == 11) = true := by
    intro e he c hc
    simp only [secondAborted, List.mem_cons, List.not_mem_nil, or_false] at he
    rcases he with rfl | rfl | rfl | rfl | rfl <;> cases hc
    rfl
  have hsignals' : ∀ e ∈ secondPatient, ∀ c, e.signalled? = some c → (c == 11) = true := by
    intro e he c hc
    simp only [secondPatient, List.mem_cons, List.not_mem_nil, or_false] at he
    rcases he with rfl | rfl | rfl | rfl <;> cases hc
  obtain ⟨-, -, hothers, hown⟩ := abort_private {} none (· == 11) secondAborted
    secondPatient rfl hsignals hsignals'
  have honly : OnlyCall secondAborted 1 (.fetch 11 .now 0 0 none) 11 := by
    refine ⟨rfl, rfl, fun n f hf hc => ?_⟩
    rcases n with _ | _ | _ | _ | _ | n <;> cases hf <;> cases hc
    rfl
  have hfirst : FirstAbort secondAborted 2 11 (.string "cancelled") := by
    refine ⟨rfl, fun n r hn hf => ?_⟩
    rcases n with _ | _ | n
    · cases hf
    · cases hf
    · omega
  have hwait : ¬ (initial none).WaitOver {} secondAborted 1 2 11 := by
    intro hover
    obtain ⟨outcome, h⟩ := hover 0 (by decide)
    cases h
  exact ⟨hothers 10 rfl, ((hown 1 _ 11 honly).2 2 _ (by decide) hfirst rfl).1 hwait⟩

end Bearer.Cache
