import Bearer.Proofs.Session.Callbacks

namespace Bearer.Session

/-- What is seen of a call that has awaited its headers. -/
def answerTo (call : String) (outcome : Result Metadata) : List Observation :=
  [.answered call (outcome.map .metadata)]

/-- To await the headers is another way to go on. -/
theorem Async.instead_awaiting {a : Async} (hcalm : a.throwing = none) :
    a.Instead (fun r => tell a.name (a.owner.headersOf (givenToken r))) (answerTo a.name) where
  calm := hcalm
  tells s _ hinner _ := workInner_nil (s := s.observe _) hinner plenty

/-- A call that awaits its headers and one with a callback. -/
theorem twins_of_forms {s : Session} {c : CredentialId} {call : String}
    (hs : s.Sound (Query.Spares call) none)
    (hkind : ∀ a, (s.held? c).credential.kind ≠ .jwtAccess a) (uri : Given String)
    (reason : Reason) :
    let a : Async := ⟨s.born, c, (s.held? c).credential, call, none, reason⟩
    Twins a (fun r => tell call (a.owner.headersOf (givenToken r))) (answerTo call)
      (s.call call (Answer.metadata <$> Credential.requestMetadata c uri none))
      (s.quietly (Credential.requestMetadataAsync c call uri .direct none)) := by
  intro a
  rw [Session.call, quietly, spawn_requestMetadata s c hkind call uri,
    spawn_requestMetadataAsync s c hkind call uri .direct none]
  exact (twins_of_ask (a := a) hs rfl .direct
    (fun outcome => tell call (a.owner.headersOf outcome))
    (fun outcome => announce c call none (a.owner.headersOf outcome)) rfl _).finishCall

/-- In every schedule, a call that awaits the headers of a credential that caches its token,
and one that has them told to a callback, lead to the same session, up to the thread of the
call itself, but that the one has its answer where the other has called back; and what the
callback is told are the headers as the credential decorates them, or a failure. -/
theorem forms_agree (w : World) (wraps : Bool) (call : String) (before : List Move)
    (hbefore : ∀ m ∈ before, m.Asks (Query.Spares call)) (c : CredentialId)
    (uri : Given String) (later : List Move) (hlater : ∀ m ∈ later, m.Asks (Query.Spares call)) :
    let s := (w.session wraps).play before
    let owner := (s.held? c).credential
    let awaiting :=
      (s.call call (Answer.metadata <$> Credential.requestMetadata c uri none)).play later
    let told := (s.quietly (Credential.requestMetadataAsync c call uri .direct none)).play later
    c < s.held.length → (∀ a, owner.kind ≠ .jwtAccess a) →
    awaiting.without s.born =
      { told.without s.born with trace := retell call (answerTo call) told.trace } ∧
    (callbacks call told.trace = [] ∨
      ∃ outcome, callbacks call told.trace = [owner.headersOf outcome]) := by
  intro s owner awaiting told hc hkind
  obtain ⟨hs, hsilent⟩ := silent_play w wraps hbefore
  obtain ⟨reason, -, hahead⟩ := ahead_of_quietly hs hkind uri .direct hc hsilent none
  have htwins := (twins_of_forms hs hkind uri reason).play
    (Async.instead_awaiting rfl) (.inl hahead) hlater
  have hcall := (Async.kept_throughout _).play hlater (.inl hahead)
  refine ⟨htwins.retold hcall, (callbacks_of_call hcall).1.imp_right ?_⟩
  rintro ⟨outcome, -, hcalled⟩
  exact ⟨outcome, hcalled⟩

def billing : Session := (({ now := 0 } : World).session).play (supplying (.value "billed"))

/-- A call for headers that bill a project, awaited and told to a callback. -/
theorem forms_agree_billed :
    let awaiting := (billing.call "headers"
      (Answer.metadata <$> Credential.requestMetadata 0 .missing none)).play bringing
    let told := (billing.quietly
      (Credential.requestMetadataAsync 0 "headers" .missing .direct none)).play bringing
    let headers : Metadata :=
      [("Authorization", ["Bearer hers"]), ("x-goog-user-project", ["billed"])]
    callbacks "headers" told.trace = [.ok headers] ∧ awaiting.held = told.held ∧
    awaiting.trace.head? = some (.answered "headers" (.ok (.metadata headers))) := by
  have hlength : billing.held.length = 1 := rfl
  have hkind : (billing.held? 0).credential.kind = .supplied := rfl
  have hcalled : callbacks "headers" ((billing.quietly
      (Credential.requestMetadataAsync 0 "headers" .missing .direct none)).play bringing).trace =
        [.ok [("Authorization", ["Bearer hers"]), ("x-goog-user-project", ["billed"])]] := by rfl
  have hagree := forms_agree { now := 0 } false "headers" (supplying (.value "billed"))
    (supplying_spares _ _) 0 .missing bringing (bringing_spares _)
  have hbilling : ({ now := 0 } : World).session.play (supplying (.value "billed")) = billing := rfl
  simp only [hbilling, hlength, hkind] at hagree
  obtain ⟨hsame, -⟩ := hagree Nat.one_pos nofun
  have hheld := congrArg Session.held hsame
  have htrace := congrArg Session.trace hsame
  simp only [held_without] at hheld
  simp only [trace_without] at htrace
  refine ⟨hcalled, hheld, ?_⟩
  rw [htrace]
  rfl

end Bearer.Session
