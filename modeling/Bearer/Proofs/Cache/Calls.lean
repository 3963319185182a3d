import Bearer.Cache.Step

namespace Bearer.Cache

namespace Event

def caller? : Event → Option CallerId
  | .fetch caller .. => some caller
  | .refresh caller _ => some caller
  | .refreshIfExpired caller .. => some caller
  | _ => none

/-- Why the signal of a call was aborted before the call. -/
def aborted? : Event → Option Thrown
  | .fetch _ _ _ _ aborted => aborted
  | .refresh _ aborted => aborted
  | .refreshIfExpired _ _ aborted => aborted
  | _ => none

/-- How a call starts a refresh, where it starts one. -/
def how : Event → Start
  | .fetch _ how _ _ _ => how
  | _ => .now

/-- Starts a refresh whatever there is. -/
def isForced : Event → Bool
  | .refresh .. => true
  | _ => false

end Event

def denial (reason : Thrown) : Result (Option Token) :=
  .error (Fault.refreshAborted reason).thrown

def Start.stage : Start → Stage
  | .now => .working
  | .later => .held
  | .refused failure => .settled (.error failure)

/-- What is to be done about the operation of a refresh that starts: it is run at once, or kept by
the executor, or its failure is due. -/
def Start.effect (k : RefreshId) : Start → Effect
  | .now => .run k
  | .later => .hold k
  | .refused _ => .due k

def Effect.isOperation : Effect → Bool
  | .run _ | .hold _ | .due _ => true
  | _ => false

namespace State
variable (set : Settings)

/-- How an event starts a refresh, if it does. -/
def opens (s : State) : Event → Option Start
  | .fetch _ how first second _ =>
    if s.slot = none ∧ (s.freshness first ≠ .fresh ∨ s.freshness second = .expired) then some how
    else none
  | .refresh .. => some .now
  | .refreshIfExpired _ reading _ =>
    if s.slot = none ∧ s.freshness reading ≠ .fresh then some .now else none
  | _ => none

/-- The cache once an event has started its refresh, if it starts one. -/
def opened (s : State) (e : Event) : Outcome :=
  match s.opens e with
  | some how => s.start set how
  | none => (s, [])

/-- The answer that a call gets at once; none if it has to wait. -/
def reply? (s : State) : Event → Option (Result (Option Token))
  | .fetch _ _ _ second aborted =>
    if s.freshness second ≠ .expired then some ((aborted.map denial).getD (.ok s.token))
    else aborted.map denial
  | .refresh _ aborted => aborted.map denial
  | .refreshIfExpired _ reading aborted =>
    if s.freshness reading = .fresh then some (.ok none) else aborted.map denial
  | _ => none

def joinSlot (s : State) (caller : CallerId) : State :=
  match s.slot with
  | some k => s.join k caller
  | none => s

@[simp] theorem start_token (s : State) (how : Start) : (s.start set how).1.token = s.token := by
  cases how <;> rfl

@[simp] theorem start_slot (s : State) (how : Start) :
    (s.start set how).1.slot = some s.refreshes.length := by
  cases how <;> rfl

@[simp] theorem start_refreshes (s : State) (how : Start) :
    (s.start set how).1.refreshes = s.refreshes ++ [⟨how.stage, []⟩] := by
  cases how <;> rfl

theorem turnAway_eq (caller : CallerId) (reason : Thrown) :
    turnAway caller reason = .answer caller (denial reason) := rfl

theorem await_eq (caller : CallerId) (aborted : Option Thrown) (k : RefreshId) (o : Outcome) :
    await caller aborted k o = match aborted.map denial with
      | some reply => (o.1, o.2 ++ [.answer caller reply])
      | none => (o.1.join k caller, o.2) := by
  cases aborted <;> rfl

theorem opens_of_no_call (s : State) (e : Event) (hc : e.caller? = none) :
    s.opens e = none := by
  cases e <;> first | rfl | cases hc

/-- A call that waits finds a refresh in the slot, its own or an older one. -/
theorem opened_slot (s : State) (e : Event) (c : CallerId) (hc : e.caller? = some c)
    (hr : s.reply? e = none) : ∃ k, (s.opened set e).1.slot = some k := by
  cases hs : s.slot with
  | some k =>
    cases ho : s.opens e with
    | none => exact ⟨k, by simp [opened, ho, hs]⟩
    | some how => exact ⟨_, by simp [opened, ho]; rfl⟩
  | none =>
    cases e with
    | fetch caller how first second aborted =>
      have he : s.freshness second = .expired := by
        cases hf : s.freshness second <;> simp [reply?, hf] at hr ⊢
      exact ⟨_, by simp [opened, opens, hs, he]; rfl⟩
    | refresh caller aborted => exact ⟨_, by simp [opened, opens]; rfl⟩
    | refreshIfExpired caller reading aborted =>
      have he : s.freshness reading ≠ .fresh := by
        intro hf
        simp [reply?, hf] at hr
      exact ⟨_, by simp [opened, opens, hs, he]; rfl⟩
    | _ => cases hc

/-- What a fetch does once it has decided about a refresh in the background. -/
theorem fetch_eq (s : State) (caller : CallerId) (how : Start) (first second : Double)
    (aborted : Option Thrown) :
    s.fetch set caller how first second aborted =
      let o := if s.freshness first ≠ .fresh ∧ s.slot = none then s.start set how else (s, [])
      if s.freshness second ≠ .expired then
        (o.1, o.2 ++ [.answer caller ((aborted.map denial).getD (.ok s.token))])
      else awaitSlot set caller how aborted o := by
  have ho : (if s.freshness first ≠ .fresh ∧ s.slot = none then s.start set how
      else (s, [])).1.token = s.token := by
    split <;> simp
  simp only [fetch]
  generalize (if s.freshness first ≠ .fresh ∧ s.slot = none then s.start set how
    else (s, [])) = o at ho ⊢
  cases ht : s.token with
  | none => simp [ho, freshness, ht]
  | some t =>
    simp only [ho, freshness, ht]
    split <;> cases aborted <;> rfl

theorem step_call (s : State) (e : Event) (c : CallerId) (hc : e.caller? = some c) :
    step set e s = match s.reply? e with
      | some reply => ((s.opened set e).1, (s.opened set e).2 ++ [.answer c reply])
      | none => ((s.opened set e).1.joinSlot c, (s.opened set e).2) := by
  cases e with
  | fetch caller how first second aborted =>
    cases hc
    simp only [step, fetch_eq, reply?, opened, opens]
    by_cases hx : s.freshness second = .expired
    · cases hs : s.slot with
      | some k => cases aborted <;> simp [hx, hs, awaitSlot, await_eq, joinSlot]
      | none =>
        by_cases hf : s.freshness first = .fresh <;> cases aborted <;>
          simp [hx, hs, hf, awaitSlot, await_eq, joinSlot]
    · by_cases hb : s.slot = none ∧ s.freshness first ≠ .fresh <;> simp [hx, hb, and_comm]
  | refresh caller aborted =>
    cases hc
    cases aborted <;> simp [step, refresh, reply?, opened, opens, await_eq, joinSlot]
  | refreshIfExpired caller reading aborted =>
    cases hc
    simp only [step, refreshIfExpired, reply?, opened, opens]
    by_cases hf : s.freshness reading = .fresh
    · simp [hf]
    · cases hs : s.slot <;> cases aborted <;> simp [hf, hs, awaitSlot, await_eq, joinSlot]
  | _ => cases hc

theorem opens_how {s : State} {e : Event} {how : Start} (h : s.opens e = some how) :
    how = e.how := by
  cases e with
  | fetch | refreshIfExpired =>
    simp only [opens] at h
    split at h
    · exact (Option.some.inj h).symm
    · cases h
  | refresh => exact (Option.some.inj h).symm
  | _ => cases h

/-- What is to be done about operations after a call is what starts its refresh, if it starts
one. -/
theorem operations_call {s : State} {e : Event} {c : CallerId} (hc : e.caller? = some c) :
    (step set e s).2.filter Effect.isOperation =
      ((s.opens e).map (Start.effect s.refreshes.length)).toList := by
  have hsaid : (set.say (Log.debug "refreshing access token")).filter Effect.isOperation = [] := by
    unfold Settings.say
    split <;> rfl
  have heffects : (step set e s).2.filter Effect.isOperation =
      (s.opened set e).2.filter Effect.isOperation := by
    rw [step_call set s e c hc]
    cases s.reply? e with
    | none => rfl
    | some reply => simp [Effect.isOperation]
  rw [heffects]
  cases ho : s.opens e with
  | none => simp [opened, ho]
  | some how => cases how <;> simp [opened, ho, start, hsaid, Effect.isOperation, Start.effect]

end State
end Bearer.Cache
