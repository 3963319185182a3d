import Bearer.Credential.Request
import Bearer.Proofs.Cache.Course
import Bearer.Proofs.Cache.Waiting
import Bearer.Session.Step

namespace Bearer

/-- How a procedure goes on that looks at its credential and then asks for a token. -/
def Procedure.served {α : Type} (p : Procedure α) (c : Credential) (outcome : Result Token) :
    Procedure α :=
  match p with
  | .ask (.credential _) next =>
    match next c with
    | .ask (.fetch ..) next => next outcome
    | p => p
  | p => p

namespace Credential

/-- What comes of a token in the headers of a request. -/
def headersOf (c : Credential) (outcome : Result Token) : Result Metadata :=
  outcome.map (fun t => c.decorate t.metadata)

theorem requestMetadata_served (c : Credential) (hc : ∀ a, c.kind ≠ .jwtAccess a)
    (self : CredentialId) (uri : Given String) (signal : Option Signal)
    (outcome : Result Token) :
    (requestMetadata self uri signal).served c outcome = .done (c.headersOf outcome) := by
  obtain ⟨setup, kind⟩ := c
  cases kind with
  | jwtAccess a => exact absurd rfl (hc a)
  | _ => cases outcome <;> rfl

theorem requestMetadataAsync_served (c : Credential) (hc : ∀ a, c.kind ≠ .jwtAccess a)
    (self : CredentialId) (call : String) (uri : Given String) (executor : Executor)
    (throwing : Option Thrown) (outcome : Result Token) :
    (requestMetadataAsync self call uri executor throwing).served c outcome =
      callBack self call throwing (c.headersOf outcome) := by
  obtain ⟨setup, kind⟩ := c
  cases kind with
  | jwtAccess a => exact absurd rfl (hc a)
  | _ => cases outcome <;> rfl

end Credential

namespace Cache

open State in
/-- A caller that waits for a refresh and does not give up is answered once, when the
refresh is over. The answer is what the operation of that refresh brought, and for a
token all have been called and heard by then who listened when it was processed; the
failures of listeners are taken to be such that the log can tell them. A caller that
wanted headers gets those of that very token. A run may end anywhere, in particular
right after an answer. -/
theorem coherent_delivery (set : Settings) (token : Option Token) (es : List Event) (i : Nat)
    (e : Event) (c : CallerId) (k : RefreshId) (he : es[i]? = some e) (hc : e.caller? = some c)
    (hidle : ((initial token).moment set es i).waits c = false)
    (hwaits : c ∈ ((initial token).moment set es (i + 1)).waitersOf k)
    (hstays : ∀ n f, i < n → es[n]? = some f → f.party? ≠ some c)
    (htold : ∀ j failure, .listenerDone j failure ∈ es →
      ∃ said, set.complaint failure = .ok said) :
    let s := (initial token).after set es
    let answers := answersTo c (((initial token).moment set es i).effects set (es.drop i))
    (answers = [] ∧ ∀ outcome, s.stage? k ≠ some (.finished outcome)) ∨
    ∃ outcome, answers = [outcome.map some] ∧ s.stage? k = some (.finished outcome) ∧
      (initial token).Brought set es k outcome ∧
      (∃ p, (initial token).Processed set es p k outcome ∧
        ∀ t, outcome = .ok t →
          callsFor k ((initial token).effects set es) =
            ((initial token).moment set es p).listeners ∧
          returned set k (initial token) es = ((initial token).moment set es p).listeners) ∧
      ∀ cr : Credential, (∀ a, cr.kind ≠ .jwtAccess a) →
        ∀ self uri call executor signal throwing,
          let received := Session.givenToken (outcome.map some)
          (Credential.requestMetadata self uri signal).served cr received =
            .done (cr.headersOf outcome) ∧
          (Credential.requestMetadataAsync self call uri executor throwing).served cr received =
            Credential.callBack self call throwing (cr.headersOf outcome) := by
  intro s answers
  have hother : ∀ f ∈ es.drop (i + 1), f.party? ≠ some c := by
    intro f hf
    obtain ⟨n, hin, hn⟩ := event_of_drop hf
    exact hstays n f hin hn
  have hrun := since_call set he hc hidle hwaits hother
  rcases hrun with ⟨hnil, hwaiting⟩ | ⟨outcome, hone, hover, -⟩
  · refine .inl ⟨hnil, fun outcome hover => ?_⟩
    have hempty := finishedAlone_after set token es k outcome hover
    simpa [hempty] using hwaiting k
  · rcases finished_course set token es k outcome hover with hu | ⟨p, hp, hbrought, hcalls⟩
    · obtain ⟨failure, fault, hmem, hfault, -⟩ := hu
      obtain ⟨said, hsaid⟩ := htold k failure hmem
      simp [hsaid] at hfault
    · have hgiven : Session.givenToken (outcome.map some) = outcome := by cases outcome <;> rfl
      refine .inr ⟨outcome, hone, hover, hbrought, ⟨p, hp, hcalls⟩, ?_⟩
      intro cr hkind self uri call executor signal throwing received
      have hreceived : received = outcome := hgiven
      rw [hreceived]
      exact ⟨cr.requestMetadata_served hkind self uri signal outcome,
        cr.requestMetadataAsync_served hkind self call uri executor throwing outcome⟩

/-- A refresh is overtaken by a newer one while its listener is being called. -/
def overtaken : List Event :=
  [.listen 0, .refresh 10 none, .refresh 11 none, .settle 0 (.ok ⟨"older", .never⟩), .process 0,
    .settle 1 (.ok ⟨"newer", .never⟩), .process 1, .listenerDone 0 none]

open State in
theorem coherent_delivery_overtaken :
    ((initial none).after {} overtaken).token = some ⟨"newer", .never⟩ ∧
    answersTo 10 (((initial none).moment {} overtaken 1).effects {} (overtaken.drop 1)) =
      [.ok (some ⟨"older", .never⟩)] := by
  have hstays : ∀ n f, 1 < n → overtaken[n]? = some f → f.party? ≠ some 10 := by
    intro n f hn hf
    rcases n with _ | _ | _ | _ | _ | _ | _ | _ | n <;> cases hf <;> first | omega | nofun
  have htold : ∀ j failure, .listenerDone j failure ∈ overtaken →
      ∃ said, Settings.complaint {} failure = .ok said := by
    intro j failure hmem
    simp only [overtaken, List.mem_cons, reduceCtorEq, Event.listenerDone.injEq, false_or,
      List.not_mem_nil, or_false] at hmem
    rw [hmem.2]
    exact ⟨[], rfl⟩
  have h := coherent_delivery {} none overtaken 1 _ 10 0 rfl rfl (by decide) (by decide) hstays
    htold
  refine ⟨rfl, ?_⟩
  rcases h with ⟨-, hopen⟩ | ⟨outcome, hone, hover, -⟩
  · exact absurd rfl (hopen (.ok ⟨"older", .never⟩))
  · cases hover
    exact hone

end Cache
end Bearer
