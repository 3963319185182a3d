import Bearer.Proofs.Authorizer.Calls
import Bearer.Proofs.Authorizer.StoredTokens
import Bearer.Proofs.TokenStore

namespace Bearer

namespace Expiry

theorem kept_eq_never (e : Expiry) : e.kept = .never ↔ e = .never ∨ e = .invalid := by
  cases e <;> simp [kept]

theorem kept_eq_at (e : Expiry) (ms : Int) : e.kept = .at ms ↔ e = .at ms := by
  cases e <;> simp [kept]

end Expiry

namespace Authorizer.Stored

theorem kept_token_eq_none (s : Stored) :
    s.kept.token = none ↔ ∀ t, s.token = some t → t.value = "" := by
  cases h : s.token with
  | none => simp [kept, h]
  | some t => by_cases ht : t.value = "" <;> simp [kept, h, Option.filter, ht]

theorem kept_token_eq_some {s : Stored} {t : Token} (h : s.kept.token = some t) :
    ∃ u, s.token = some u ∧ t.value = u.value ∧ t.expiry = u.expiry.kept := by
  cases hs : s.token with
  | none => simp [kept, hs] at h
  | some u =>
    by_cases hu : u.value = ""
    · simp [kept, hs, Option.filter, hu] at h
    · refine ⟨u, rfl, ?_⟩
      simp [kept, hs, Option.filter, hu] at h
      exact ⟨h ▸ rfl, h ▸ rfl⟩

end Authorizer.Stored

theorem Given.toOption_ofOption {α : Type} (o : Option α) : (Given.ofOption o).toOption = o := by
  cases o <;> rfl

/-- A credential is made of tokens unless there is neither a token nor a refresh token. -/
theorem Authorizer.credentialOf_cases (b : Authorizer) (s : Stored) :
    if s.token = none ∧ s.refreshToken.filter (· ≠ "") = none then
      b.credentialOf s = Fault.tokenOrRefreshTokenRequired.raise
    else ∃ credential, b.credentialOf s = .ok credential ∧ credential.token = s.token ∧
      ∃ u, credential.kind = .user u ∧ u.refreshToken.toOption = s.refreshToken := by
  have hfilled : (b.userOf s).refreshToken.filled? = s.refreshToken.filter (· ≠ "") := by
    rw [Given.filled?, userOf, Given.toOption_ofOption]
  unfold credentialOf User.credential
  simp only [hfilled, Option.isNone_iff_eq_none]
  split
  · rfl
  · exact ⟨_, rfl, rfl, _, rfl, Given.toOption_ofOption s.refreshToken⟩

namespace Session

open Authorizer Procedure

variable {a : Authorizer}

def written (s : Session) (user : String) (c : CredentialId) : Session :=
  { s.observe (.stored (.store user (s.held? c).entry)) with
    store := (s.store.perform (.store user (s.held? c).entry)).1 }

/-- Storing a credential writes its entry before anything else can happen. -/
theorem advance_storeCredential (ha : a.stores = true) (user : String) (c : CredentialId)
    (s : Session) (id : Cache.CallerId) (name : String) :
    ∃ p, advance id (calling name ((fun _ => .nothing) <$> a.storeCredential user c)) s =
      (s.written user c).doNext (.resume id p) := by
  rw [storeCredential_eq ha]
  exact ⟨_, rfl⟩

theorem advance_restore (a : Authorizer) (user : String) {text : String} {s : Stored}
    (hread : Stored.ofText text = .ok s) (t : Session) (id : Cache.CallerId) (name : String) :
    advance id (calling name (Answer.credential <$> a.restore user (some text))) t =
      match a.credentialOf s with
      | .error failure => t.observe (.answered name (.error failure))
      | .ok credential => (t.adopt credential (.saving a user)).observe
          (.answered name (.ok (.credential (some t.held.length)))) := by
  rw [restore_some user hread]
  cases a.credentialOf s with
  | error failure => rfl
  | ok credential => rfl

/-- Stored tokens round trip. Whatever token and refresh token a credential of a user has when it
is stored, the entry is there at once; loading it at any later time, whatever else goes on before
the call comes back, gives a credential with the same refresh token and a token of the same value
that ends at the same instant. A token of no text comes back as none, and one that ends at no
instant never ends; if that leaves nothing, the call fails. -/
theorem stored_tokens_round_trip {a b : Authorizer} (ha : a.stores = true) (hb : b.stores = true)
    {s : Session} (hmemory : s.store.Reliable) {c : CredentialId} {u : User}
    (hkind : (s.held? c).credential.kind = .user u)
    (htold : ∀ t, (s.held? c).cache.token = some t → t.expiry.Told) (user name : String) :
    let token := (s.held? c).cache.token
    let refreshToken := u.refreshToken.toOption
    ∃ loaded : Option Token,
      (loaded = none ↔ ∀ t, token = some t → t.value = "") ∧
      (∀ t, loaded = some t → ∃ t₀, token = some t₀ ∧ t.value = t₀.value ∧
        (t.expiry = .never ↔ t₀.expiry = .never ∨ t₀.expiry = .invalid) ∧
        ∀ ms, t.expiry = .at ms ↔ t₀.expiry = .at ms) ∧
      ∃ text,
        (s.spawn (calling name ((fun _ => .nothing) <$> a.storeCredential user c))).store.find? user
          = some text ∧
        ∀ later : Session, later.store.Reliable → later.store.find? user = some text →
          ∃ p, later.spawn (calling name (Answer.credential <$> b.credential? user)) =
            ({ later with born := later.born + 1 }.observe (.stored (.load user))).doNext
              (.resume later.born p) ∧
          ∀ t : Session,
            let loading := t.perform (.resume later.born p)
            if loaded = none ∧ refreshToken.filter (· ≠ "") = none then
              ∃ failure, failure.kind? = some .config ∧
                loading = t.observe (.answered name (.error failure))
            else
              loading.trace = .answered name (.ok (.credential (some t.held.length))) :: t.trace ∧
              (loading.held? t.held.length).cache.token = loaded ∧
              ∃ u', (loading.held? t.held.length).credential.kind = .user u' ∧
                u'.refreshToken.toOption = refreshToken := by
  intro token refreshToken
  have hstored : (s.held? c).stored = ⟨token, refreshToken⟩ := by
    rw [Held.stored, hkind]
  have hread : Stored.ofText (s.held? c).entry = .ok (s.held? c).stored.kept :=
    Stored.ofText_document htold
  have hwritten : (s.written user c).store.find? user = some (s.held? c).entry := by
    rw [written, hmemory.perform_store, TokenStore.find?_insert, if_pos rfl]
  refine ⟨(s.held? c).stored.kept.token, ?_, fun t ht => ?_, (s.held? c).entry, ?_, ?_⟩
  · rw [Stored.kept_token_eq_none, hstored]
  · obtain ⟨t₀, ht₀, hvalue, hexpiry⟩ := Stored.kept_token_eq_some ht
    rw [hstored] at ht₀
    rw [hexpiry]
    exact ⟨t₀, ht₀, hvalue, t₀.expiry.kept_eq_never, t₀.expiry.kept_eq_at⟩
  · obtain ⟨p, hp⟩ := advance_storeCredential ha user c { s with born := s.born + 1 } s.born name
    rw [spawn, hp]
    exact hwritten
  intro later hload hentry
  refine ⟨calling name (Answer.credential <$> b.restore user (some (s.held? c).entry)), ?_, ?_⟩
  · rw [credential?_eq hb, spawn_load hload, hentry]
  · intro t loading
    have hloading : loading = _ := advance_restore b user hread t later.born name
    have hcases := b.credentialOf_cases (s.held? c).stored.kept
    have hrefresh : (s.held? c).stored.kept.refreshToken = refreshToken := by rw [hstored]; rfl
    rw [hrefresh] at hcases
    by_cases hnothing : (s.held? c).stored.kept.token = none ∧
        refreshToken.filter (· ≠ "") = none
    · rw [if_pos hnothing] at hcases ⊢
      rw [hloading, hcases]
      exact ⟨Fault.tokenOrRefreshTokenRequired.thrown, rfl, rfl⟩
    · rw [if_neg hnothing] at hcases ⊢
      obtain ⟨credential, hmade, htoken, u', hkind', hrefresh'⟩ := hcases
      have hheld : loading.held? t.held.length = (t.adopt credential (.saving b user)).held?
          t.held.length := by
        rw [hloading, hmade]
        rfl
      rw [hheld, held?_adopt]
      refine ⟨?_, htoken, u', hkind', hrefresh'⟩
      rw [hloading, hmade]
      rfl

/-- A credential whose tokens are full of what has to be escaped. -/
def quoted : Held where
  credential := { kind := .user { clientId := "client-id", refreshToken := .value "re\"fresh\n" } }
  cache := { token := some ⟨"say \"hi\\\t\" \x00é", .at 1704067200000⟩ }

theorem stored_tokens_round_trip_quoted :
    let a : Authorizer := { client := { id := "client-id" }, scopes := ["scope"], stores := true }
    let s : Session := { now := 0, held := [quoted] }
    let later := s.spawn (calling "store" ((fun _ => .nothing) <$> a.storeCredential "user" 0))
    ∃ p, (later.spawn (calling "store" (Answer.credential <$> a.credential? "user"))).agenda
        = later.agenda ++ [.resume 1 p] ∧
      ((later.perform (.resume 1 p)).held? 1).cache.token = quoted.cache.token := by
  intro a s later
  obtain ⟨loaded, hnone, hsome, text, hentry, hload⟩ :=
    stored_tokens_round_trip (a := a) (b := a) rfl rfl (s := s) ⟨rfl, rfl, rfl⟩ (c := 0) rfl
      (fun t ht ms hms => by cases ht; cases hms; rfl) "user" "store"
  have hreliable : later.store.Reliable := ⟨rfl, rfl, rfl⟩
  obtain ⟨p, hp, hafter⟩ := hload later hreliable hentry
  have htoken : loaded = quoted.cache.token := by
    cases loaded with
    | none => exact absurd (hnone.mp rfl _ rfl) (by decide)
    | some t =>
      obtain ⟨t₀, ht₀, hvalue, -, hat⟩ := hsome t rfl
      cases ht₀
      obtain ⟨value, expiry⟩ := t
      obtain rfl : value = _ := hvalue
      obtain rfl : expiry = .at 1704067200000 := (hat _).mpr rfl
      rfl
  refine ⟨p, by rw [hp]; rfl, ?_⟩
  have hfound := hafter later
  have hsomething : quoted.cache.token ≠ none := nofun
  rw [htoken, if_neg fun h => hsomething h.1] at hfound
  exact hfound.2.1

end Session
end Bearer
