import Bearer.Proofs.Session.Sound
import Bearer.Proofs.TokenStore

namespace Bearer

def Session.calling (name : String) (program : Procedure Session.Answer) :
    Procedure Session.Ending :=
  (Session.Ending.call name) <$> program.attempt

def Session.Held.stored (h : Session.Held) : Authorizer.Stored where
  token := h.cache.token
  refreshToken := match h.credential.kind with
    | .user u => u.refreshToken.toOption
    | _ => none

def Session.Held.entry (h : Session.Held) : String := h.stored.document.render

namespace Authorizer

open Procedure

variable {a : Authorizer} (ha : a.stores = true) (user : String)

def userOf (a : Authorizer) (s : Stored) : User :=
  { clientId := a.client.id
    clientSecret := a.client.secret
    refreshToken := .ofOption s.refreshToken
    tokenServer := a.tokenServer }

def credentialOf (a : Authorizer) (s : Stored) : Result Credential :=
  (a.userOf s).credential { a.toSurroundings with token := s.token }

/-- How `credential?` goes on when the entry is there. -/
def restore (a : Authorizer) (user : String) : Option String → Procedure (Option CredentialId)
  | none => pure none
  | some text => do
    let c ← a.createCredential (← Stored.ofText text)
    a.monitor user c
    return some c

def revokeEntry (a : Authorizer) (user : String) : Option String → Procedure Unit
  | none => pure ()
  | some text => do
    let outcome ← (a.revokeGrant (← Stored.ofText text)).attempt
    let _ ← callStore (.delete user)
    .ofResult outcome

section
include ha

theorem requireStore_eq : a.requireStore = .ok () := by rw [requireStore, if_pos ha]

theorem storeCredential_eq (c : CredentialId) :
    a.storeCredential user c =
      .ask (.cached c) fun token => .ask (.credential c) fun credential => do
        let _ ← callStore (.store user (Session.Held.entry { credential, cache := { token } }))
        return () := by
  unfold storeCredential
  rw [requireStore_eq ha]
  rfl

theorem credential?_eq :
    a.credential? user = callStore (.load user) >>= a.restore user := by
  unfold credential? loadTokens
  rw [requireStore_eq ha]
  refine congrArg (Procedure.ask (.store (.load user))) (funext fun r => ?_)
  rcases r with failure | - | text
  · rfl
  · rfl
  · show (ofResult (Stored.ofText text) >>= fun s => pure (some s)) >>= _ =
      ofResult (Stored.ofText text) >>= _
    cases Stored.ofText text with
    | error failure => rfl
    | ok s => rfl

theorem revoke_eq : a.revoke user = callStore (.load user) >>= a.revokeEntry user := by
  unfold revoke loadTokens
  rw [requireStore_eq ha]
  refine congrArg (Procedure.ask (.store (.load user))) (funext fun r => ?_)
  rcases r with failure | - | text
  · rfl
  · rfl
  · show (ofResult (Stored.ofText text) >>= fun s => pure (some s)) >>= _ =
      ofResult (Stored.ofText text) >>= _
    cases Stored.ofText text with
    | error failure => rfl
    | ok s => rfl

end

/-- A restored credential is listened to from the start. -/
theorem restore_some {text : String} {s : Stored} (hread : Stored.ofText text = .ok s) :
    a.restore user (some text) = (ofResult (a.credentialOf s) >>= fun credential =>
      .ask (.create credential) fun c => .ask (.listen c (.saving a user)) fun _ =>
        .done (.ok (some c))) := by
  have hcreate : a.createCredential s = ofResult (a.credentialOf s) >>= create := rfl
  show (ofResult (Stored.ofText text) >>= fun s => a.createCredential s >>= fun c =>
    a.monitor user c >>= fun _ => pure (some c)) = _
  rw [hread]
  show (a.createCredential s >>= _) = _
  rw [hcreate]
  cases a.credentialOf s with
  | error failure => rfl
  | ok credential => rfl

end Authorizer

namespace Session

/-- Whoever loads an entry goes on with what was found, later. -/
theorem spawn_load {α : Type} {s : Session} (hs : s.store.Reliable) (name user : String)
    (f : α → Answer) (next : Option String → Procedure α) :
    s.spawn (calling name (f <$> (callStore (.load user) >>= next))) =
      ({ s with born := s.born + 1 }.observe (.stored (.load user))).doNext
        (.resume s.born (calling name (f <$> next (s.store.find? user)))) := by
  show ({ ({ s with born := s.born + 1 } : Session).observe (.stored (.load user)) with
    store := (s.store.perform (.load user)).1 }).doNext (.resume s.born (calling name
      (f <$> Procedure.bind (.done (s.store.perform (.load user)).2) next))) = _
  rw [hs.perform_load]
  rfl

/-- A credential that nobody has used. -/
def Held.fresh (credential : Credential) : Held :=
  { credential, cache := { token := credential.token } }

def make (s : Session) (credential : Credential) : Session :=
  { s with held := s.held ++ [.fresh credential] }

def heard (s : Session) (c : CredentialId) (l : Listener) : Session :=
  (s.modifyHeld c fun h => { h with listeners := h.listeners ++ [(l, 0)] }).stepCache c .direct
    (.listen (s.held? c).listeners.length)

/-- A credential is made that one listener is told of. -/
def adopt (s : Session) (credential : Credential) (l : Listener) : Session :=
  (s.make credential).heard s.held.length l

variable {s : Session} {c : CredentialId} {credential : Credential}

theorem held?_make (s : Session) (credential : Credential) :
    (s.make credential).held? s.held.length = .fresh credential := by
  simp [held?, make]

theorem held_lt_make (s : Session) (credential : Credential) :
    s.held.length < (s.make credential).held.length := by
  simp [make]

theorem held?_heard (hc : c < s.held.length) (h : s.held? c = .fresh credential) (l : Listener) :
    (s.heard c l).held? c =
      { credential, cache := { token := credential.token, listeners := [0] }
        listeners := [(l, 0)] } := by
  let added := s.modifyHeld c fun h => { h with listeners := h.listeners ++ [(l, 0)] }
  have hadded : added.held? c =
      { credential, cache := { token := credential.token }, listeners := [(l, 0)] } := by
    rw [held?_modifyHeld, if_pos ⟨rfl, hc⟩, h]
    rfl
  have hlength : c < added.held.length := by simpa [added, modifyHeld] using hc
  rw [heard, held?_stepCache, if_pos ⟨rfl, hlength⟩, hadded, h]
  rfl

theorem held?_adopt (s : Session) (credential : Credential) (l : Listener) :
    (s.adopt credential l).held? s.held.length =
      { credential, cache := { token := credential.token, listeners := [0] }
        listeners := [(l, 0)] } :=
  held?_heard (held_lt_make s credential) (held?_make s credential) l

def keeper : Authorizer :=
  { client := { id := "client-id" }, scopes := ["scope-a"], stores := true }

end Session
end Bearer
