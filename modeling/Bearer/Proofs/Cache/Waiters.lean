import Bearer.Proofs.Cache.Stages

namespace Bearer.Cache

/-- The caller that an event is about: it makes a call or gives up waiting. -/
def Event.party? : Event → Option CallerId
  | .abort caller _ => some caller
  | e => e.caller?

theorem party_of_caller {e : Event} {c : CallerId} (h : e.caller? = some c) :
    e.party? = some c := by
  cases e with
  | fetch | refresh | refreshIfExpired => exact h
  | _ => cases h

def Effect.answer? (c : CallerId) : Effect → Option (Result (Option Token))
  | .answer caller outcome => if caller = c then some outcome else none
  | _ => none

def answersTo (c : CallerId) (effects : List Effect) : List (Result (Option Token)) :=
  effects.filterMap (Effect.answer? c)

@[simp] theorem answersTo_nil (c : CallerId) : answersTo c [] = [] := rfl

@[simp] theorem answersTo_append (c : CallerId) (es fs : List Effect) :
    answersTo c (es ++ fs) = answersTo c es ++ answersTo c fs := by
  simp [answersTo]

@[simp] theorem answersTo_cons (c : CallerId) (e : Effect) (es : List Effect) :
    answersTo c (e :: es) = (e.answer? c).toList ++ answersTo c es := by
  cases h : e.answer? c <;> simp [answersTo, h]

@[simp] theorem answersTo_say (c : CallerId) (set : Settings) (entry : Log.Entry) :
    answersTo c (set.say entry) = [] := by
  unfold Settings.say
  split <;> rfl

@[simp] theorem answersTo_warn (c : CallerId) (set : Settings) (message : String)
    (failure : Thrown) : answersTo c (set.warn message failure) = [] := by
  unfold Settings.warn
  split
  · split <;> rfl
  · rfl

theorem answersTo_complaint (c : CallerId) {set : Settings} {failure : Option Thrown}
    {said : List Effect} (h : set.complaint failure = .ok said) : answersTo c said = [] := by
  obtain rfl | ⟨entry, rfl⟩ := Settings.complaint_cases h <;> rfl

theorem answersTo_answers (c : CallerId) (outcome : Result Token) (cs : List CallerId) :
    answersTo c (cs.map (State.answerOf outcome)) =
      List.replicate (cs.count c) (outcome.map some) := by
  induction cs with
  | nil => rfl
  | cons d cs ih =>
    by_cases h : d = c
    · simp [ih, State.answerOf, Effect.answer?, h, List.replicate_succ]
    · simp [ih, State.answerOf, Effect.answer?, h]

namespace State
variable (set : Settings)

@[simp] theorem waitersOf_start (s : State) (how : Start) (j : RefreshId) :
    (s.start set how).1.waitersOf j = s.waitersOf j := by
  simp only [waitersOf, start_refreshes, List.getElem?_append]
  grind

@[simp] theorem waitersOf_opened (s : State) (e : Event) (j : RefreshId) :
    (s.opened set e).1.waitersOf j = s.waitersOf j := by
  unfold opened
  split <;> simp

theorem waitersOf_join (s : State) (k : RefreshId) (c : CallerId) (j : RefreshId) :
    (s.join k c).waitersOf j =
      if j = k ∧ k < s.refreshes.length then s.waitersOf j ++ [c] else s.waitersOf j := by
  simp only [waitersOf, join, List.getElem?_modify]
  grind

@[simp] theorem waitersOf_leave (s : State) (c : CallerId) (j : RefreshId) :
    (s.leave c).waitersOf j = (s.waitersOf j).filter (· ≠ c) := by
  simp only [waitersOf, leave, List.getElem?_map]
  cases s.refreshes[j]? <;> rfl

@[simp] theorem waitersOf_token (s : State) (token : Option Token) (j : RefreshId) :
    ({ s with token } : State).waitersOf j = s.waitersOf j := rfl

@[simp] theorem waitersOf_clear (s : State) (k j : RefreshId) :
    (s.clear k).waitersOf j = s.waitersOf j := by
  unfold clear
  split <;> rfl

@[simp] theorem waitersOf_setStage (s : State) (k : RefreshId) (stage : Stage) (j : RefreshId) :
    (s.setStage k stage).waitersOf j = s.waitersOf j := by
  simp only [waitersOf, setStage, List.getElem?_modify]
  grind

theorem waitersOf_finish (s : State) (k : RefreshId) (outcome : Result Token) (j : RefreshId) :
    (s.finish set k outcome).1.waitersOf j = if j = k then [] else s.waitersOf j := by
  simp only [waitersOf, finish, List.getElem?_modify]
  grind

theorem answersTo_finish (s : State) (k : RefreshId) (outcome : Result Token) (c : CallerId) :
    answersTo c (s.finish set k outcome).2 =
      List.replicate ((s.waitersOf k).count c) (outcome.map some) := by
  simp only [finish, answersTo_append, answersTo_answers]
  cases outcome <;> simp [waitersOf]

theorem waitersOf_notifyNext (s : State) (k : RefreshId) (token : Token)
    (left : List ListenerId) (j : RefreshId) :
    (s.notifyNext set k token left).1.waitersOf j =
      if j = k ∧ left = [] then [] else s.waitersOf j := by
  cases left <;> simp [notifyNext, waitersOf_finish]

theorem answersTo_notifyNext (s : State) (k : RefreshId) (token : Token)
    (left : List ListenerId) (c : CallerId) :
    answersTo c (s.notifyNext set k token left).2 =
      if left = [] then List.replicate ((s.waitersOf k).count c) (.ok (some token)) else [] := by
  cases left with
  | nil => simp [notifyNext, answersTo_finish, Except.map]
  | cons l rest => simp [notifyNext, Effect.answer?]

@[simp] theorem answersTo_opened (s : State) (e : Event) (c : CallerId) :
    answersTo c (s.opened set e).2 = [] := by
  unfold opened
  split
  · next how _ => cases how <;> simp [start, Effect.answer?]
  · rfl

theorem waits_iff (s : State) (c : CallerId) : s.waits c = true ↔ ∃ k, c ∈ s.waitersOf k := by
  simp only [waits, List.any_eq_true, List.contains_iff_mem, waitersOf]
  constructor
  · rintro ⟨r, hr, hc⟩
    obtain ⟨k, hk⟩ := List.mem_iff_getElem?.mp hr
    exact ⟨k, by simpa [hk] using hc⟩
  · rintro ⟨k, hc⟩
    cases hk : s.refreshes[k]? with
    | none => simp [hk] at hc
    | some r => exact ⟨r, List.mem_of_getElem? hk, by simpa [hk] using hc⟩

theorem waitersOf_call (s : State) (e : Event) (c : CallerId) (hc : e.caller? = some c)
    (j : RefreshId) :
    (step set e s).1.waitersOf j =
      if s.reply? e = none ∧ (s.opened set e).1.slot = some j ∧
          j < (s.opened set e).1.refreshes.length
      then s.waitersOf j ++ [c] else s.waitersOf j := by
  rw [step_call set s e c hc]
  cases hr : s.reply? e with
  | some reply => simp
  | none =>
    obtain ⟨k, hk⟩ := opened_slot set s e c hc hr
    simp only [joinSlot, hk, waitersOf_join, waitersOf_opened]
    grind

theorem answersTo_call (s : State) (e : Event) (d : CallerId) (hd : e.caller? = some d)
    (c : CallerId) :
    answersTo c (step set e s).2 = if d = c then (s.reply? e).toList else [] := by
  rw [step_call set s e d hd]
  cases hr : s.reply? e with
  | some reply => by_cases h : d = c <;> simp [Effect.answer?, h]
  | none => simp

theorem waitersOf_abort (s : State) (d : CallerId) (reason : Thrown) (j : RefreshId) :
    (step set (.abort d reason) s).1.waitersOf j = (s.waitersOf j).filter (· ≠ d) := by
  simp only [step, abort]
  split
  · simp
  · next hw =>
    symm
    apply List.filter_eq_self.mpr
    intro c hc
    simp only [decide_eq_true_eq]
    rintro rfl
    exact hw ((waits_iff s c).mpr ⟨j, hc⟩)

theorem answersTo_abort (s : State) (d : CallerId) (reason : Thrown) (c : CallerId) :
    answersTo c (step set (.abort d reason) s).2 =
      if d = c ∧ s.waits d then [denial reason] else [] := by
  simp only [step, abort]
  split
  · next hw => by_cases h : d = c <;> simp_all [turnAway_eq, Effect.answer?]
  · next hw => simp [hw]

/-- What becomes of the waiters when nobody calls or gives up: those of a refresh that
ends are answered with its outcome, all others stay. -/
theorem inner_step (s : State) (e : Event) (he : e.party? = none) (c : CallerId) :
    (∀ j, (step set e s).1.waitersOf j =
      if (s.ends set e).any (j = ·.1) then [] else s.waitersOf j) ∧
    answersTo c (step set e s).2 = match s.ends set e with
      | some (k, outcome) => List.replicate ((s.waitersOf k).count c) (outcome.map some)
      | none => [] := by
  cases e with
  | launch k =>
    simp only [step, launch, ends]
    split <;> simp [Effect.answer?]
  | settle k outcome =>
    simp only [step, settle, ends]
    split <;> simp [Effect.answer?]
  | process k =>
    cases hk : s.stage? k with
    | none => simp [step, process, ends, hk]
    | some stage =>
      cases stage with
      | settled outcome =>
        cases outcome with
        | ok token =>
          simp only [step, process, hk, ends, answersTo_append, answersTo_say, List.nil_append,
            waitersOf_notifyNext, answersTo_notifyNext, waitersOf_clear, waitersOf_token,
            clear_listeners]
          by_cases hl : s.listeners = [] <;> simp [hl, Except.map]
        | error failure =>
          simp [step, process, ends, hk, waitersOf_finish, answersTo_finish]
      | _ => simp [step, process, ends, hk]
  | listenerDone k failure =>
    cases hk : s.stage? k with
    | none => simp [step, listenerDone, ends, hk]
    | some stage =>
      cases stage with
      | notifying token l rest =>
        simp only [step, listenerDone_eq set s k failure token l rest hk, ends, hk]
        cases hf : set.complaint failure with
        | ok said =>
          by_cases hl : rest = [] <;>
            simp [waitersOf_notifyNext, answersTo_notifyNext, hl, Except.map,
              answersTo_complaint c hf]
        | error fault => simp [waitersOf_finish, answersTo_finish]
      | _ => simp [step, listenerDone, ends, hk]
  | listen l => exact ⟨fun j => by simp [ends]; rfl, rfl⟩
  | callbackFailed failure => simp [step, callbackFailed, ends]
  | _ => simp [Event.party?, Event.caller?] at he

theorem ends_call (s : State) (e : Event) (d : CallerId) (hd : e.caller? = some d) :
    s.ends set e = none := by
  cases e <;> first | rfl | cases hd

variable {set} in
theorem ends_party {s : State} {e : Event} {k : RefreshId} {outcome : Result Token}
    (h : s.ends set e = some (k, outcome)) : e.party? = none := by
  cases e <;> first | rfl | cases h

theorem other_call (s : State) (e : Event) (c d : CallerId) (hd : e.caller? = some d)
    (hn : d ≠ c) :
    (∀ j, ((step set e s).1.waitersOf j).count c =
      if (s.ends set e).any (j = ·.1) then 0 else (s.waitersOf j).count c) ∧
    answersTo c (step set e s).2 = match s.ends set e with
      | some (k, outcome) => List.replicate ((s.waitersOf k).count c) (outcome.map some)
      | none => [] := by
  refine ⟨fun j => ?_, ?_⟩
  · rw [waitersOf_call set s e d hd, ends_call set s e d hd]
    split <;> simp [hn]
  · simp [answersTo_call set s e d hd, hn, ends_call set s e d hd]

/-- A step about others takes a caller's place at a refresh in one way only: the
refresh ends, and the caller gets the outcome. -/
theorem other_step (s : State) (e : Event) (c : CallerId) (he : e.party? ≠ some c) :
    (∀ j, ((step set e s).1.waitersOf j).count c =
      if (s.ends set e).any (j = ·.1) then 0 else (s.waitersOf j).count c) ∧
    answersTo c (step set e s).2 = match s.ends set e with
      | some (k, outcome) => List.replicate ((s.waitersOf k).count c) (outcome.map some)
      | none => [] := by
  cases e with
  | abort d reason =>
    have hd : d ≠ c := by simpa [Event.party?] using he
    refine ⟨fun j => ?_, ?_⟩
    · rw [waitersOf_abort, List.count_filter (by simpa using hd.symm)]
      rfl
    · rw [answersTo_abort]
      simp [hd, ends]
  | fetch d how first second aborted =>
    exact other_call set s _ c d rfl (by simpa [Event.party?, Event.caller?] using he)
  | refresh d aborted =>
    exact other_call set s _ c d rfl (by simpa [Event.party?, Event.caller?] using he)
  | refreshIfExpired d reading aborted =>
    exact other_call set s _ c d rfl (by simpa [Event.party?, Event.caller?] using he)
  | _ =>
    refine ⟨fun j => ?_, (inner_step set s _ rfl c).2⟩
    rw [(inner_step set s _ rfl c).1 j]
    split <;> rfl

end State
end Bearer.Cache
