import Bearer.Proofs.Authorizer.RoundTrip
import Bearer.Proofs.Session.Inner
import Bearer.Proofs.Session.Onward

namespace Bearer

namespace Session

open Authorizer

variable {a : Authorizer} {user : String} {c : CredentialId} {s s' t : Session}

def counted (s : Session) (c : CredentialId) (l : Cache.ListenerId) (x : Listener) (n : Nat) :
    Session :=
  s.modifyHeld c fun h => { h with listeners := h.listeners.set l (x, n + 1) }

/-- The listener of an authorizer writes the entry, and that is all it ever asks for. -/
theorem callListener_saving (ha : a.stores = true) {l : Cache.ListenerId} {n : Nat}
    (hl : (s.held? c).listeners[l]? = some (.saving a user, n)) (k : Cache.RefreshId) :
    ∃ failure, s.callListener c k l =
      (({ s.counted c l (.saving a user) n with born := s.born + 1 } : Session).written user
        c).doNext (.resume s.born (.done (.ok (.listener c k failure)))) := by
  unfold callListener
  simp only [hl]
  let u : Session := { s.counted c l (.saving a user) n with born := s.born + 1 }
  have hprogram : (Listener.saving a user).act c n = _ := storeCredential_eq ha user c
  show ∃ failure, advance s.born ((fun r => Ending.listener c k (failureOf r)) <$>
    ((Listener.saving a user).act c n).attempt) u = _
  rw [hprogram]
  show ∃ failure, (u.written user c).doNext (.resume s.born
    ((fun r => Ending.listener c k (failureOf r)) <$> (Procedure.bind
      (.done (u.store.perform (.store user (u.held? c).entry)).2) fun _ => pure ()).attempt)) = _
  cases (u.store.perform (.store user (u.held? c).entry)).2 with
  | error failure => exact ⟨some failure, rfl⟩
  | ok found => exact ⟨none, rfl⟩

theorem counted_entry (s : Session) (c : CredentialId) (l : Cache.ListenerId) (x : Listener)
    (n : Nat) : ((s.counted c l x n).held? c).entry = (s.held? c).entry := by
  rw [counted, held?_modifyHeld]
  split <;> rfl

theorem callListener_store (ha : a.stores = true) {l : Cache.ListenerId} {n : Nat}
    (hl : (s.held? c).listeners[l]? = some (.saving a user, n)) (k : Cache.RefreshId) :
    (s.callListener c k l).store = (s.store.perform (.store user (s.held? c).entry)).1 := by
  obtain ⟨failure, hcall⟩ := callListener_saving ha hl k
  rw [hcall, ← counted_entry s c l (.saving a user) n]
  rfl

theorem callListener_entry (ha : a.stores = true) {l : Cache.ListenerId} {n : Nat}
    (hl : (s.held? c).listeners[l]? = some (.saving a user, n)) (k : Cache.RefreshId) :
    ((s.callListener c k l).held? c).entry = (s.held? c).entry := by
  obtain ⟨failure, hcall⟩ := callListener_saving ha hl k
  rw [hcall, ← counted_entry s c l (.saving a user) n]
  rfl

/-- The call of the first listener of a credential. -/
def WritesBack (c : CredentialId) (job : Job) : Prop :=
  ∃ executor k, job = .effect c executor (.notify k 0)

/-- An authorizer is the first to hear of the new tokens of a credential of a user. -/
structure Saves (a : Authorizer) (user : String) (c : CredentialId) (s : Session) : Prop where
  kind : ∃ u, (s.held? c).credential.kind = .user u
  listener : ∃ n, (s.held? c).listeners[0]? = some (.saving a user, n)
  first : (s.held? c).cache.listeners.head? = some 0

theorem Saves.step (h : Saves a user c s) (hstep : Step (fun _ => True) s s') :
    Saves a user c s' := by
  obtain ⟨⟨u, hu⟩, ⟨n, hn⟩, hfirst⟩ := h
  have hcarries := hstep.carries c
  exact ⟨⟨u, hcarries.user u hu⟩, hcarries.listeners 0 _ n hn, hcarries.first 0 hfirst⟩

theorem Saves.steps (h : Saves a user c s) (hsteps : Steps (fun _ => True) s s') :
    Saves a user c s' := by
  induction hsteps with
  | refl => exact h
  | tail _ hstep ih => exact ih.step hstep

/-- When it hears of one, it writes the entry of that user, and no other. -/
theorem Saves.writes (h : Saves a user c s) (ha : a.stores = true) (hs : s.store.Reliable)
    (hdoes : Does (WritesBack c) s s') :
    s'.store = s.store.insert user (s.held? c).entry ∧
      (s'.held? c).entry = (s.held? c).entry := by
  obtain ⟨job, t, htake, ⟨executor, k, rfl⟩, rfl⟩ := hdoes
  obtain ⟨n, hn⟩ := h.listener
  have hheld : t.held? c = s.held? c := takeJob?_held? htake c
  rw [← hheld] at hn
  constructor
  · show (t.callListener c k 0).store = _
    rw [callListener_store ha hn, hheld, takeJob?_store htake, hs.perform_store]
  · show ((t.callListener c k 0).held? c).entry = _
    rw [callListener_entry ha hn, hheld]

def Current (user : String) (c : CredentialId) (s : Session) : Prop :=
  s.store.find? user = some (s.held? c).entry

/-- No refresh has succeeded since, and the entry is still the one from then. -/
structure Untouched (user : String) (c : CredentialId) (since s : Session) : Prop where
  barren : (s.held? c).cache.Barren
  token : (s.held? c).cache.token = (since.held? c).cache.token
  entry : s.store.find? user = since.store.find? user

/-- The entry is about to be written. -/
def Lagging (c : CredentialId) (s : Session) : Prop := ∃ job ∈ s.inner, WritesBack c job

/-- How the entry stands to a credential that was handed out then. -/
def Stands (user : String) (c : CredentialId) (restored : Prop) (since s : Session) : Prop :=
  Current user c s ∨ (restored ∧ Untouched user c since s) ∨ Lagging c s

theorem entry_eq_of_carries {u : User} (hkind : (s.held? c).credential.kind = .user u)
    (hcarries : Carries c s s') (htoken : (s'.held? c).cache.token = (s.held? c).cache.token) :
    (s'.held? c).entry = (s.held? c).entry := by
  have hstored : (s'.held? c).stored = (s.held? c).stored := by
    rw [Held.stored, Held.stored, htoken, hkind, hcarries.user u hkind]
  rw [Held.entry, Held.entry, hstored]

/-- What is about to be written still is, or has been. -/
theorem Lagging.step (h : Lagging c s) (hstep : Step (fun _ => True) s s') :
    Lagging c s' ∨ Does (WritesBack c) s s' := by
  obtain ⟨job, hjob, hwrites⟩ := h
  rcases hstep.onward with ⟨done, t, htake, rfl⟩ | honward
  · obtain ⟨first, rest, hinner⟩ := List.exists_cons_of_ne_nil (List.ne_nil_of_mem hjob)
    cases (takeJob?_of_inner hinner).symm.trans htake
    rcases List.mem_cons.mp (hinner ▸ hjob) with rfl | hrest
    · exact .inr ⟨job, _, htake, hwrites, rfl⟩
    · exact .inl ⟨job, (perform_onward_anything _ done).inner.subset hrest, hwrites⟩
  · exact .inl ⟨job, honward.inner.subset hjob, hwrites⟩

/-- The entry follows the credential: whenever it gets a new token, its entry is the next to be
written. -/
theorem Stands.step {restored : Prop} {since : Session} (h : Stands user c restored since s)
    (hsaves : Saves a user c s) (ha : a.stores = true) (hs : s.store.Reliable)
    (hstep : OwnedStep (WritesBack c) user s s') : Stands user c restored since s' := by
  by_cases hdoes : Does (WritesBack c) s s'
  · obtain ⟨hstore, hentry⟩ := hsaves.writes ha hs hdoes
    refine .inl ?_
    rw [Current, hstore, TokenStore.find?_insert, if_pos rfl, hentry]
  obtain ⟨hstep, hwrites⟩ := hstep
  have hsame := hwrites.resolve_left hdoes
  obtain ⟨u, hkind⟩ := hsaves.kind
  have hcarries := hstep.carries c
  rcases hcarries.news 0 hsaves.first with ⟨htoken, hbarren⟩ | ⟨executor, k, hpending⟩
  · rcases h with hcurrent | ⟨hrestored, huntouched⟩ | hlagging
    · refine .inl ?_
      rw [Current, hsame, hcurrent, entry_eq_of_carries hkind hcarries htoken]
    · refine .inr (.inl ⟨hrestored, hbarren huntouched.barren, ?_, ?_⟩)
      · exact htoken.trans huntouched.token
      · exact hsame.trans huntouched.entry
    · exact .inr (.inr ((hlagging.step hstep).resolve_right hdoes))
  · exact .inr (.inr ⟨_, hpending, executor, k, rfl⟩)

end Session
end Bearer
