import Bearer.Proofs.Cache.Delivery
import Bearer.Proofs.Session.Whereabouts

namespace Bearer

/-- A query that does not call back on behalf of this call. -/
def Query.Spares (call : String) (q : Query) : Prop :=
  ∀ outcome, q ≠ .note (.calledBack call outcome)

theorem Query.OfListener.spares {q : Query} (h : q.OfListener) (call : String) :
    q.Spares call := by
  rintro outcome rfl
  exact h

namespace Session

/-- The outcome that a callback of this call got. -/
def Observation.callback? (call : String) : Observation → Option (Result Metadata)
  | .noted (.calledBack name outcome) => if name = call then some outcome else none
  | _ => none

theorem callback_own (call : String) (outcome : Result Metadata) :
    Observation.callback? call (.noted (.calledBack call outcome)) = some outcome := if_pos rfl

def callbacks (call : String) (trace : List Observation) : List (Result Metadata) :=
  trace.filterMap (Observation.callback? call)

/-- Why a caller has its answer: it was served a token, or it joined a refresh. -/
inductive Reason where
  | served (t : Token)
  | refresh (k : Cache.RefreshId)

/-- The token served, or the outcome of the refresh once that is over. -/
def Reason.Gives (cache : Cache.State) (outcome : Result Token) : Reason → Prop
  | .served t => outcome = .ok t
  | .refresh k => cache.stage? k = some (.finished outcome)

/-- A call with a callback. -/
structure Async where
  id : Cache.CallerId
  credential : CredentialId
  owner : Credential
  name : String
  throwing : Option Thrown
  reason : Reason

def announce (c : CredentialId) (call : String) (throwing : Option Thrown)
    (outcome : Result Metadata) : Procedure Ending :=
  .ask (.note (.calledBack call outcome)) fun _ =>
    match throwing with
    | some failure => .ask (.callbackFailed c failure) fun _ => .done (.ok .nothing)
    | none => .done (.ok .nothing)

namespace Async
variable (a : Async)

/-- How the thread of the call goes on with its answer. -/
def tale (r : Result (Option Token)) : Procedure Ending :=
  announce a.credential a.name a.throwing (a.owner.headersOf (givenToken r))

def thread : Thread := ⟨a.id, .token a.credential none a.tale⟩

inductive Pending (s : Session) : Prop
  | waiting {k : Cache.RefreshId} (hreason : a.reason = .refresh k)
      (hwhere : Whereabouts a.id [a.thread] [] [] s)
      (hplace : StandsAt a.id (some (a.credential, k)) s)
  | answered {c : CredentialId} {executor : Executor} {outcome : Result Token}
      (hgives : a.reason.Gives (s.held? a.credential).cache outcome)
      (hwhere : Whereabouts a.id [a.thread]
        [.effect c executor (.answer a.id (outcome.map some))] [] s)
      (hplace : StandsAt a.id none s)
  | due {outcome : Result Token}
      (hgives : a.reason.Gives (s.held? a.credential).cache outcome)
      (hwhere : Whereabouts a.id [] [] [.resume a.id (a.tale (outcome.map some))] s)
      (hplace : StandsAt a.id none s)

/-- The session is in order around the call, whose credential is what it was. -/
structure Sited (s : Session) : Prop where
  sound : s.Sound (Query.Spares a.name) (some a.id)
  held : a.credential < s.held.length
  setup : (s.held? a.credential).credential.toSetup = a.owner.toSetup

/-- The call is on its way. -/
structure Ahead (s : Session) : Prop extends a.Sited s where
  pending : a.Pending s
  silent : callbacks a.name s.trace = []

structure Over (outcome : Result Token) (s : Session) : Prop extends a.Sited s where
  gives : a.reason.Gives (s.held? a.credential).cache outcome
  whereabouts : Whereabouts a.id [] [] [] s
  place : StandsAt a.id none s
  called : callbacks a.name s.trace = [a.owner.headersOf outcome]

end Async

theorem Reason.Gives.after {reason : Reason} {cache : Cache.State} {outcome : Result Token}
    (h : reason.Gives cache outcome) (set : Cache.Settings) (es : List Cache.Event) :
    reason.Gives (cache.after set es) outcome := by
  cases reason with
  | served t => exact h
  | refresh k =>
    exact Cache.State.after_keeps set (p := fun s => s.stage? k = some (.finished outcome))
      (fun s e => Cache.State.finished_step set s e k outcome) cache es h

theorem callbacks_of_due {call : String} {o : Observation} (h : o.Due (Query.Spares call))
    (trace : List Observation) : callbacks call (o :: trace) = callbacks call trace := by
  refine List.filterMap_cons_none ?_
  cases o with
  | noted n =>
    cases n with
    | calledBack name outcome =>
      refine if_neg ?_
      rintro rfl
      exact h outcome rfl
    | _ => rfl
  | _ => rfl

theorem Act.callbacks {call : String} {i : Option Cache.CallerId} {s s' : Session}
    (h : Act (Query.Spares call) i s s') : callbacks call s'.trace = callbacks call s.trace := by
  cases h with
  | observe o h => exact callbacks_of_due h s.trace
  | put job _ _ _ h => cases h <;> rfl
  | take job _ h => cases h <;> rfl
  | _ => rfl

namespace Async
variable {a : Async} {s s' : Session}

theorem Sited.act (h : a.Sited s) (hact : Act (Query.Spares a.name) (some a.id) s s') :
    a.Sited s' := by
  obtain ⟨hheld, hlasting, -⟩ := hact.held h.held
  exact ⟨h.sound.act hact, hheld, (Credential.toSetup_of_lasting hlasting).trans h.setup⟩

theorem Sited.gives (h : a.Sited s) (hact : Act (Query.Spares a.name) (some a.id) s s')
    {outcome : Result Token} (hgives : a.reason.Gives (s.held? a.credential).cache outcome) :
    a.reason.Gives (s'.held? a.credential).cache outcome := by
  obtain ⟨-, -, es, hes⟩ := hact.held h.held
  rw [hes]
  exact hgives.after _ es

theorem Ahead.act (h : a.Ahead s) (hact : Act (Query.Spares a.name) (some a.id) s s') :
    a.Ahead s' := by
  refine ⟨h.toSited.act hact, ?_, hact.callbacks.trans h.silent⟩
  cases h.pending with
  | waiting hreason hwhere hplace =>
    rcases hwhere.act hplace hact with
      ⟨hwhere', hplace'⟩ | ⟨c, k, executor, outcome, hk, hwhere', hfinished, hplace'⟩
    · exact .waiting hreason hwhere' hplace'
    · obtain ⟨rfl, rfl⟩ : a.credential = c ∧ _ = k := by simpa using hk
      exact .answered (hreason ▸ hfinished) hwhere' hplace'
  | answered hgives hwhere hplace =>
    rcases hwhere.act hplace hact with ⟨hwhere', hplace'⟩ | ⟨c, k, executor, outcome, hk, -⟩
    · exact .answered (h.gives hact hgives) hwhere' hplace'
    · cases hk
  | due hgives hwhere hplace =>
    rcases hwhere.act hplace hact with ⟨hwhere', hplace'⟩ | ⟨c, k, executor, outcome, hk, -⟩
    · exact .due (h.gives hact hgives) hwhere' hplace'
    · cases hk

theorem Over.act {outcome : Result Token} (h : a.Over outcome s)
    (hact : Act (Query.Spares a.name) (some a.id) s s') : a.Over outcome s' := by
  rcases h.whereabouts.act h.place hact with ⟨hwhere, hplace⟩ | ⟨c, k, executor, other, hk, -⟩
  · exact ⟨h.toSited.act hact, h.toSited.gives hact h.gives, hwhere, hplace,
      hact.callbacks.trans h.called⟩
  · cases hk

/-- What comes of calling back: a note, and for a callback that throws a step of the cache. -/
theorem advance_announce (s : Session) (id : Cache.CallerId) (c : CredentialId) (call : String)
    (throwing : Option Thrown) (outcome : Result Metadata) :
    advance id (announce c call throwing outcome) s = match throwing with
      | some failure =>
        (s.observe (.noted (.calledBack call outcome))).stepCache c .direct
          (.callbackFailed failure)
      | none => s.observe (.noted (.calledBack call outcome)) := by
  cases throwing <;> rfl

/-- The thread of the call goes on and calls back. -/
theorem Sited.over (h : a.Sited s) {outcome : Result Token}
    (hgives : a.reason.Gives (s.held? a.credential).cache outcome)
    (hwhere : Whereabouts a.id [] [] [] s) (hplace : StandsAt a.id none s)
    (hsilent : callbacks a.name s.trace = []) :
    a.Over outcome (advance a.id (a.tale (outcome.map some)) s) := by
  have hgiven : givenToken (outcome.map some) = outcome := by cases outcome <;> rfl
  have hnoted : a.Over outcome
      (s.observe (.noted (.calledBack a.name (a.owner.headersOf outcome)))) := by
    obtain ⟨⟨hthreads, hjobs, hwaiters, hbystander, hhistory⟩, hheld, hsetup⟩ := h
    obtain ⟨ht, hi, ha, hd, hk, hm⟩ := hwhere
    refine ⟨⟨⟨hthreads, hjobs, hwaiters, hbystander, hhistory⟩, hheld, hsetup⟩, hgives,
      ⟨ht, hi, ha, hd, hk, hm⟩, hplace, ?_⟩
    rw [callbacks] at hsilent
    simp [observe, callbacks, callback_own, hsilent]
  rw [tale, hgiven, advance_announce]
  cases a.throwing with
  | none => exact hnoted
  | some failure => exact hnoted.act (.cache a.credential .direct _ nofun apart_none)

/-- A job of the call brings it further: its answer reaches the thread, or the thread goes
on and calls back. The latter is not among what is done first. -/
theorem Ahead.job (h : a.Ahead s) {job : Job} (htake : s.Takes job s')
    (hjob : job.party? = some a.id) :
    a.Ahead (s'.perform job) ∨ s.inner = [] ∧ ∃ outcome, a.Over outcome (s'.perform job) := by
  have hsame : s'.held = s.held ∧ s'.trace = s.trace := by cases htake <;> exact ⟨rfl, rfl⟩
  obtain ⟨hheld, htrace⟩ := hsame
  have hcredential (c : CredentialId) : s'.held? c = s.held? c := by rw [held?, held?, hheld]
  have hsited : a.Sited s' :=
    ⟨h.sound.take htake, hheld ▸ h.held, by rw [hcredential]; exact h.setup⟩
  have hplace' (hplace : StandsAt a.id none s) : StandsAt a.id none s' := by
    intro c k
    rw [hcredential]
    exact hplace c k
  cases h.pending with
  | waiting hreason hwhere hplace =>
    rcases hwhere.own hjob htake with ⟨_, hnil, -⟩ | ⟨_, hnil, -⟩ <;> cases hnil
  | answered hgives hwhere hplace =>
    rcases hwhere.own hjob htake with ⟨_, hcons, hnext⟩ | ⟨_, hnil, -⟩
    · cases hcons
      obtain ⟨heq, hdue⟩ := hnext.answer _
      refine .inl ?_
      change a.Ahead (Session.answer _ _ _)
      rw [heq] at hdue ⊢
      refine ⟨⟨?_, hsited.held, hsited.setup⟩, .due ?_ hdue (hplace' hplace),
        htrace ▸ h.silent⟩
      · -- What the thread goes on with is the call's own.
        refine (hsited.sound.forget a.id).put (fun hapart => absurd rfl (hapart a.id rfl)) ?_ .next
        rintro id ⟨⟩
        exact hsited.sound.bystander a.id rfl
      · exact (hcredential a.credential).symm ▸ hgives
    · cases hnil
  | due hgives hwhere hplace =>
    rcases hwhere.own hjob htake with ⟨_, hnil, -⟩ | ⟨_, hcons, hnext, hinner⟩
    · cases hnil
    · cases hcons
      refine .inr ⟨hinner, _, hsited.over ?_ hnext (hplace' hplace) (htrace ▸ h.silent)⟩
      exact (hcredential a.credential).symm ▸ hgives

theorem native_spares (call : String) : Native (Query.Spares call) :=
  native_of_ofListener fun _ h => h.spares call

variable (a)

/-- As long as only what belongs together is done, the callback does not come. -/
theorem kept_ahead : Kept (Query.Spares a.name) (some a.id) a.Ahead where
  native := native_spares a.name
  sound _ h := h.sound
  act _ _ h hact := h.act hact
  own s job rest id h hinner hi hid := by
    cases hi
    rcases h.job (.inner hinner) hid with hahead | ⟨hnone, -⟩
    · exact hahead
    · cases hinner.symm.trans hnone

/-- On its way or over: so it stays whatever happens. -/
theorem kept_throughout : KeptThroughout (Query.Spares a.name) (some a.id)
    (fun s => a.Ahead s ∨ ∃ outcome, a.Over outcome s) := by
  have hjob : ∀ s s' job id, (a.Ahead s ∨ ∃ outcome, a.Over outcome s) → s.Takes job s' →
      some a.id = some id → job.party? = some id →
      a.Ahead (s'.perform job) ∨ ∃ outcome, a.Over outcome (s'.perform job) := by
    rintro s s' job id (h | ⟨outcome, h⟩) htake hi hid
    · cases hi
      exact (h.job htake hid).imp_right fun hover => hover.2
    · cases hi
      rcases h.whereabouts.own hid htake with ⟨_, hnil, -⟩ | ⟨_, hnil, -⟩ <;> cases hnil
  refine ⟨⟨native_spares a.name, ?_, ?_, ?_⟩, hjob⟩
  · rintro s (h | ⟨outcome, h⟩)
    · exact h.sound
    · exact h.sound
  · rintro s s' (h | ⟨outcome, h⟩) hact
    · exact .inl (h.act hact)
    · exact .inr ⟨outcome, h.act hact⟩
  · exact fun s job rest id h hinner hi hid => hjob s _ job id h (.inner hinner) hi hid

end Async
end Session
end Bearer
