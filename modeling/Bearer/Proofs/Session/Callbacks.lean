import Bearer.Proofs.Session.Calling

namespace Bearer

/-- What the log says of a callback that has thrown: one warning, if there is a log and
the failure can be told in it. -/
def Credential.warningOf (c : Credential) (failure : Thrown) : List Session.Observation :=
  if c.logging then
    match Log.warning "request metadata callback failed" failure with
    | .ok entry => [.logged entry]
    | .error _ => []
  else []

theorem Credential.warningOf_told (c : Credential) {failure : Thrown} {details : Json}
    (hlog : c.logging = true) (htold : Report.ofThrown failure = .ok details) :
    c.warningOf failure =
      [.logged ⟨.warn, "request metadata callback failed", some details⟩] := by
  rw [warningOf, if_pos hlog, Log.warning, htold]
  rfl

theorem Credential.warningOf_untold (c : Credential) {failure : Thrown}
    (h : c.logging = false ∨ ∃ fault, Report.ofThrown failure = .error fault) :
    c.warningOf failure = [] := by
  rcases h with hlog | ⟨fault, huntold⟩
  · rw [warningOf, if_neg (by rw [hlog]; exact Bool.false_ne_true)]
  · rw [warningOf, Log.warning, huntold]
    split <;> rfl

theorem Credential.requestMetadataAsync_ends (c : CredentialId) (call : String)
    (uri : Given String) (executor : Executor) (throwing : Option Thrown) :
    (Credential.requestMetadataAsync c call uri executor throwing).Ends (· = .ok ()) := by
  have hcallBack : ∀ outcome, (Credential.callBack c call throwing outcome).Ends (· = .ok ()) := by
    intro outcome _
    cases throwing with
    | none => rfl
    | some failure => exact fun _ => rfl
  rintro ⟨setup, kind⟩
  cases kind with
  | jwtAccess a =>
    show ((a.metadata uri).attempt >>= _).Ends _
    refine Procedure.Ends.bind (fun outcome _ => ?_) ?_ (Procedure.ends_attempt (a.metadata uri))
    · cases executor with
      | refusing failure => rfl
      | deferring => exact fun _ => hcallBack outcome
      | direct => exact hcallBack outcome
      | manual => exact hcallBack outcome
    · rintro e ⟨r, hr⟩
      cases hr
  | _ => exact fun outcome => hcallBack _

namespace Session

/-- A cache put in its own place. -/
theorem modifyHeld_same (s : Session) (c : CredentialId) :
    s.modifyHeld c (fun h => { h with cache := (s.held? c).cache }) = s := by
  have hsame : s.held.modify c (fun h => { h with cache := (s.held? c).cache }) = s.held := by
    refine List.ext_getElem? fun d => ?_
    rw [List.getElem?_modify]
    split
    · next h =>
      subst h
      cases hd : s.held[c]? with
      | none => rfl
      | some held => simp [held?, hd]
    · simp
  rw [modifyHeld, hsame]

/-- The cache of a credential stays as it is when a callback has thrown. -/
theorem stepCache_callbackFailed (s : Session) (c : CredentialId) (executor : Executor)
    (failure : Thrown) : s.stepCache c executor (.callbackFailed failure) =
      s.doFirst ((Cache.Settings.warn ⟨(s.held? c).credential.logging⟩
        "request metadata callback failed" failure).map (.effect c executor)) :=
  congrArg (fun t : Session => t.doFirst ((Cache.Settings.warn
    ⟨(s.held? c).credential.logging⟩ "request metadata callback failed" failure).map
      (.effect c executor))) (modifyHeld_same s c)

/-- One piece of work that is to be done first, and nothing comes of it. -/
theorem finishCall_single {s t : Session} {job : Job} (hinner : s.inner = [job])
    (ht : ({ s with inner := [] } : Session).perform job = t) (hnone : t.inner = []) :
    s.finishCall = t := by
  have hplenty : plenty = 999999 + 1 := rfl
  rw [finishCall, hplenty, workInner, hinner]
  simp only [ht]
  exact workInner_nil hnone 999999

/-- A callback that throws is heard of in the log. -/
theorem finishCall_announce (s : Session) (id : Cache.CallerId) (c : CredentialId)
    (call : String) (failure : Thrown) (outcome : Result Metadata) (hinner : s.inner = []) :
    (advance id (announce c call (some failure) outcome) s).finishCall =
      { s with trace := (s.held? c).credential.warningOf failure ++
          .noted (.calledBack call outcome) :: s.trace } := by
  rw [Async.advance_announce]
  generalize hs : s.observe (.noted (.calledBack call outcome)) = noted
  have hheld : noted.held? c = s.held? c := by rw [← hs]; rfl
  have hnone : noted.inner = [] := by rw [← hs]; exact hinner
  have hquiet : noted.finishCall =
      { s with trace := .noted (.calledBack call outcome) :: s.trace } := by
    rw [finishCall, workInner_nil hnone, ← hs]
    rfl
  change (noted.stepCache c .direct (.callbackFailed failure)).finishCall = _
  rw [stepCache_callbackFailed, hheld, Cache.Settings.warn, Credential.warningOf]
  cases (s.held? c).credential.logging with
  | false => exact hquiet
  | true =>
    dsimp only
    cases Log.warning "request metadata callback failed" failure with
    | error fault => exact hquiet
    | ok entry =>
      have hone : (noted.doFirst [.effect c .direct (.log entry)]).inner =
          [.effect c .direct (.log entry)] := by rw [doFirst, hnone]; rfl
      refine (finishCall_single hone rfl rfl).trans ?_
      subst hs
      simp [perform, observe, doFirst, hinner]

/-- Before the call nothing is in disorder, and nobody has called back on its behalf. -/
theorem silent_play (w : World) (wraps : Bool) {call : String} {before : List Move}
    (hbefore : ∀ m ∈ before, m.Asks (Query.Spares call)) :
    ((w.session wraps).play before).Sound (Query.Spares call) none ∧
      callbacks call ((w.session wraps).play before).trace = [] := by
  have hkept : KeptThroughout (Query.Spares call) none
      (fun s => s.Sound (Query.Spares call) none ∧ callbacks call s.trace = []) :=
    { native := Async.native_spares call
      sound := fun _ hs => hs.1
      act := fun _ _ hs h => ⟨hs.1.act h, h.callbacks.trans hs.2⟩
      own := fun _ _ _ _ _ _ hi => nomatch hi
      later := fun _ _ _ _ _ _ hi => nomatch hi }
  exact hkept.play hbefore ⟨sound_session w wraps, rfl⟩

section Call
variable {s : Session} {c : CredentialId} {call : String}
  (hs : s.Sound (Query.Spares call) none)
  (hkind : ∀ a, (s.held? c).credential.kind ≠ .jwtAccess a) (uri : Given String)
  (executor : Executor)
include hs hkind

/-- When the call has come back, it is on its way to its callback. -/
theorem ahead_of_quietly (hc : c < s.held.length) (hsilent : callbacks call s.trace = [])
    (throwing : Option Thrown) :
    ∃ reason : Reason, reason.OfCall (s.held? c).cache ∧
      (⟨s.born, c, (s.held? c).credential, call, throwing, reason⟩ : Async).Ahead
        (s.quietly (Credential.requestMetadataAsync c call uri executor throwing)) := by
  obtain ⟨reason, hreason, hahead⟩ := ahead_of_ask hs hc hsilent executor throwing
  refine ⟨reason, hreason, ?_⟩
  rw [quietly, spawn_requestMetadataAsync s c hkind call uri executor throwing]
  exact (Async.kept_ahead _).workInner plenty hahead

/-- Two calls whose callbacks do and do not throw. -/
theorem twins_of_throwing (failure : Thrown) (reason : Reason) :
    let a : Async := ⟨s.born, c, (s.held? c).credential, call, none, reason⟩
    Twins a
      (fun r => announce c call (some failure) (a.owner.headersOf (givenToken r)))
      (fun outcome => a.owner.warningOf failure ++ [.noted (.calledBack call outcome)])
      (s.quietly (Credential.requestMetadataAsync c call uri executor (some failure)))
      (s.quietly (Credential.requestMetadataAsync c call uri executor none)) := by
  intro a
  rw [quietly, quietly, spawn_requestMetadataAsync s c hkind call uri executor (some failure),
    spawn_requestMetadataAsync s c hkind call uri executor none]
  exact (twins_of_ask (a := a) hs rfl executor
    (fun outcome => announce c call (some failure) (a.owner.headersOf outcome))
    (fun outcome => announce c call none (a.owner.headersOf outcome)) rfl _).finishCall

end Call

/-- A callback that throws is another way to go on. -/
theorem Async.instead_throwing {a : Async} (hcalm : a.throwing = none) (failure : Thrown) :
    a.Instead (fun r => announce a.credential a.name (some failure)
        (a.owner.headersOf (givenToken r)))
      (fun outcome => a.owner.warningOf failure ++ [.noted (.calledBack a.name outcome)]) where
  calm := hcalm
  tells s r hinner hsetup := by
    have hwarning : (s.held? a.credential).credential.warningOf failure =
        a.owner.warningOf failure := by rw [Credential.warningOf, hsetup]; rfl
    rw [finishCall_announce s a.id a.credential a.name failure _ hinner, hwarning,
      List.append_assoc]
    rfl

theorem Reason.Gives.unique {reason : Reason} {cache : Cache.State} {outcome other : Result Token}
    (h : reason.Gives cache outcome) (h' : reason.Gives cache other) : outcome = other := by
  cases reason with
  | served t => exact Eq.trans h (Eq.symm h')
  | refresh k => simpa using h.symm.trans h'

/-- While the callback is still to come, there is something left to do, or nothing to tell. -/
theorem Async.Ahead.not_given {a : Async} {s : Session} (h : a.Ahead s) (hinner : s.inner = [])
    (hagenda : s.agenda = []) (outcome : Result Token) :
    ¬ a.reason.Gives (s.held? a.credential).cache outcome := by
  cases h.pending with
  | waiting hreason hwhere hplace =>
    obtain ⟨es, hes⟩ := h.sound.history a.credential
    have halone : (s.held? a.credential).cache.FinishedAlone :=
      hes ▸ Cache.State.finishedAlone_after _ _ es
    rw [hreason]
    exact hplace.waitsOnce.not_finished halone outcome
  | answered _ hwhere _ =>
    have hnone := hwhere.inner
    simp [hinner] at hnone
  | due _ hwhere _ =>
    have hnone := hwhere.agenda
    simp [hagenda] at hnone

/-- What can be seen of a call with a callback at any time. -/
theorem callbacks_of_call {a : Async} {s : Session}
    (h : a.Ahead s ∨ ∃ outcome, a.Over outcome s) :
    (callbacks a.name s.trace = [] ∨
      ∃ outcome, a.reason.Gives (s.held? a.credential).cache outcome ∧
        callbacks a.name s.trace = [a.owner.headersOf outcome]) ∧
    (s.inner = [] → s.agenda = [] → ∀ outcome,
      a.reason.Gives (s.held? a.credential).cache outcome →
      callbacks a.name s.trace = [a.owner.headersOf outcome]) := by
  rcases h with hahead | ⟨outcome, hover⟩
  · exact ⟨.inl hahead.silent, fun hinner hagenda outcome hgives =>
      absurd hgives (hahead.not_given hinner hagenda outcome)⟩
  · refine ⟨.inr ⟨outcome, hover.gives, hover.called⟩, fun _ _ other hgives => ?_⟩
    rw [hover.called, hover.gives.unique hgives]

/-- In every schedule, a call with a callback to a credential that caches its token does not
fail, calls back only after it has come back, and calls back once: when the token that it
was served, or the refresh that it joined, has given it an outcome and nothing is left to be
done at once, its callback has been called with that, and it never is with anything else. A
callback that throws makes no difference but for one warning in the log, which there is exactly
if there is a log and what was thrown can be told in it. -/
theorem one_callback (w : World) (wraps : Bool) (call : String) (before : List Move)
    (hbefore : ∀ m ∈ before, m.Asks (Query.Spares call)) (c : CredentialId)
    (uri : Given String) (executor : Executor) (throwing : Option Thrown) :
    let s := (w.session wraps).play before
    let owner := (s.held? c).credential
    let called (throwing : Option Thrown) :=
      s.quietly (Credential.requestMetadataAsync c call uri executor throwing)
    c < s.held.length → (∀ a, owner.kind ≠ .jwtAccess a) →
    (Credential.requestMetadataAsync c call uri executor throwing).Ends (· = .ok ()) ∧
    callbacks call (called throwing).trace = [] ∧
    (∃ reason : Reason, reason.OfCall (s.held? c).cache ∧
      ∀ later : List Move, (∀ m ∈ later, m.Asks (Query.Spares call)) →
        let t := (called throwing).play later
        (callbacks call t.trace = [] ∨
          ∃ outcome, reason.Gives (t.held? c).cache outcome ∧
            callbacks call t.trace = [owner.headersOf outcome]) ∧
        (t.inner = [] → t.agenda = [] → ∀ outcome, reason.Gives (t.held? c).cache outcome →
          callbacks call t.trace = [owner.headersOf outcome])) ∧
    ∀ failure, ∀ later : List Move, (∀ m ∈ later, m.Asks (Query.Spares call)) →
      let calm := (called none).play later
      ((called (some failure)).play later).without s.born =
        { calm.without s.born with
          trace := retell call
            (fun outcome => owner.warningOf failure ++ [.noted (.calledBack call outcome)])
            calm.trace } ∧
      (∀ details, owner.logging = true → Report.ofThrown failure = .ok details →
        owner.warningOf failure =
          [.logged ⟨.warn, "request metadata callback failed", some details⟩]) ∧
      ((owner.logging = false ∨ ∃ fault, Report.ofThrown failure = .error fault) →
        owner.warningOf failure = []) := by
  intro s owner called hc hkind
  obtain ⟨hs, hsilent⟩ := silent_play w wraps hbefore
  obtain ⟨reason, hreason, hahead⟩ :=
    ahead_of_quietly hs hkind uri executor hc hsilent throwing
  refine ⟨Credential.requestMetadataAsync_ends c call uri executor throwing, hahead.silent,
    ⟨reason, hreason, fun later hlater => ?_⟩, fun failure later hlater => ?_⟩
  · exact callbacks_of_call ((Async.kept_throughout _).play hlater (.inl hahead))
  · obtain ⟨reason, -, hcalm⟩ := ahead_of_quietly hs hkind uri executor hc hsilent none
    have htwins := twins_of_throwing hs hkind uri executor failure reason
    have hstill := htwins.play (Async.instead_throwing rfl failure) (.inl hcalm) hlater
    exact ⟨hstill.retold ((Async.kept_throughout _).play hlater (.inl hcalm)),
      fun details => owner.warningOf_told, owner.warningOf_untold⟩

def supplying (project : Given String) : List Move :=
  [.quietly ((fun _ => ()) <$> create { kind := .supplied, quotaProject := project })]

theorem supplying_spares (project : Given String) (call : String) :
    ∀ m ∈ supplying project, m.Asks (Query.Spares call) := by
  intro m hm
  obtain rfl := List.mem_singleton.mp hm
  refine ⟨?_, fun _ => trivial⟩
  rintro outcome ⟨⟩

/-- The executor runs what it has kept, if anything, and the operation ends with a token. -/
def bringing : List Move :=
  [.work, .endOperation 0 (.ok { value := "hers" }), .work, .work, .work]

theorem bringing_spares (call : String) : ∀ m ∈ bringing, m.Asks (Query.Spares call) := by
  intro m hm
  simp only [bringing, List.mem_cons, List.not_mem_nil, or_false] at hm
  rcases hm with rfl | rfl | rfl | rfl | rfl <;> trivial

/-- The refresh that a call joins is put off, and the callback throws. -/
theorem one_callback_deferred :
    let s := (({ now := 0 } : World).session).play (supplying .missing)
    let called (throwing : Option Thrown) :=
      s.quietly (Credential.requestMetadataAsync 0 "headers" .missing .deferring throwing)
    callbacks "headers" (called (some .undefined)).trace = [] ∧
    callbacks "headers" ((called (some .undefined)).play bringing).trace =
      [.ok [("Authorization", ["Bearer hers"])]] ∧
    ((called (some .undefined)).play bringing).held = ((called none).play bringing).held := by
  intro s called
  have hlength : s.held.length = 1 := rfl
  have hkind : (s.held? 0).credential.kind = .supplied := rfl
  obtain ⟨-, hbefore, ⟨reason, hreason, hafter⟩, hthrowing⟩ :=
    one_callback { now := 0 } false "headers" (supplying .missing) (supplying_spares _ _) 0
      .missing .deferring (some .undefined) (hlength ▸ Nat.one_pos) (by rw [hkind]; nofun)
  have hbringing := bringing_spares "headers"
  have hheld := congrArg Session.held (hthrowing .undefined bringing hbringing).1
  simp only [held_without] at hheld
  refine ⟨hbefore, ?_, hheld⟩
  cases reason with
  | served t =>
    have hnone : (s.held? 0).cache.token = none := rfl
    exact absurd (hnone.symm.trans hreason) nofun
  | refresh k =>
    obtain rfl : k = 0 := hreason
    exact (hafter bringing hbringing).2 rfl rfl (.ok ⟨"hers", .never⟩) rfl

end Session
end Bearer
