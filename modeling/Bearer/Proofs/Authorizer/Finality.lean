import Bearer.Proofs.Authorizer.HandOut
import Bearer.Proofs.Authorizer.Revocation

namespace Bearer

/-- Nothing is stored for the user; their entry may be loaded and removed. -/
def Query.Withholds (user : String) (q : Query) : Prop :=
  ∀ tokens, q ≠ .store (.store user tokens)

theorem Query.withholds_of_storeless {user : String} {q : Query} (h : q.Storeless) :
    q.Withholds user := by
  rintro tokens rfl
  exact h

namespace TokenStore

/-- Where nothing is stored for a user, their entry stays or goes. -/
theorem Calls.withheld {user : String} {s s' : TokenStore}
    (h : Calls (Query.Withholds user) s s') :
    s'.find? user = s.find? user ∨ s'.find? user = none := by
  induction h with
  | refl => exact .inl rfl
  | @tail t t' _ hcall ih =>
    obtain ⟨call, hcall, rfl⟩ := hcall
    have hnext : (t.perform call).1.find? user = t.find? user ∨
        (t.perform call).1.find? user = none := by
      unfold perform
      split
      · exact .inl rfl
      · cases call with
        | load other => exact .inl rfl
        | store other tokens =>
          have hother : user ≠ other := fun h => hcall tokens (h ▸ rfl)
          exact .inl (by rw [find?_insert, if_neg hother])
        | delete other =>
          rw [find?_erase]
          split
          · exact .inr rfl
          · exact .inl rfl
    rcases hnext with hnext | hnext
    · rwa [hnext]
    · exact .inr hnext

end TokenStore

open Session Authorizer

namespace Listener
variable {user : String}

/-- A listener that does not write the entry of a user stores nothing for them. -/
theorem act_withholds {l : Listener} (hl : ∀ a : Authorizer, a.stores = true → l ≠ .saving a user)
    (c : CredentialId) (calls : Nat) : (l.act c calls).Asks (Query.Withholds user) := by
  by_cases hsaving : ∃ a other, l = .saving a other
  · obtain ⟨a, other, rfl⟩ := hsaving
    show (a.storeCredential other c).Asks _
    by_cases ha : a.stores = true
    · have hother : other ≠ user := fun h => hl a ha (h ▸ rfl)
      rw [storeCredential_eq ha]
      refine ⟨nofun, fun token => ⟨nofun, fun credential => ⟨?_, fun r => ?_⟩⟩⟩
      · rintro tokens ⟨⟩
        exact hother rfl
      · cases r <;> trivial
    · have hnone : a.storeCredential other c = .raise Fault.tokenStoreRequired := by
        unfold storeCredential
        rw [requireStore, if_neg ha]
        rfl
      rw [hnone]
      trivial
  · refine (observer_asks (fun a other h => hsaving ⟨a, other, h⟩) c calls).mono fun q hq => ?_
    exact Query.withholds_of_storeless hq.2

end Listener

namespace Authorizer

open Procedure

variable {user other : String} (a : Authorizer)

theorem callStore_withholds {call : TokenStore.Call} (h : (Query.store call).Withholds user) :
    (callStore call).Asks (Query.Withholds user) :=
  ⟨h, fun _ => trivial⟩

theorem send_withholds (request : Http.Request) : (send request).Asks (Query.Withholds user) :=
  ⟨nofun, fun _ => trivial⟩

theorem loadTokens_withholds : (a.loadTokens other).Asks (Query.Withholds user) := by
  refine Asks.bind (fun _ => ?_) (Asks.ofResult _)
  refine Asks.bind (fun found => ?_) (callStore_withholds nofun)
  cases found with
  | none => trivial
  | some text => exact Asks.bind (fun _ => Asks.pure _) (Asks.ofResult _)

theorem createCredential_withholds (s : Stored) :
    (a.createCredential s).Asks (Query.Withholds user) := by
  refine Asks.bind (fun credential => ?_) (Asks.ofResult _)
  exact Asks.query (q := .create credential) nofun

theorem credential?_withholds : (a.credential? other).Asks (Query.Withholds user) := by
  refine Asks.bind (fun found => ?_) a.loadTokens_withholds
  cases found with
  | none => trivial
  | some s =>
    refine Asks.bind (fun c => ?_) (a.createCredential_withholds s)
    exact Asks.bind (fun _ => Asks.pure _) (Asks.query (q := .listen c (.saving a other)) nofun)

theorem revokeGrant_withholds (s : Stored) : (a.revokeGrant s).Asks (Query.Withholds user) := by
  unfold revokeGrant
  split
  · trivial
  · refine Asks.bind (fun response => ?_) (send_withholds _)
    split <;> trivial

theorem revoke_withholds : (a.revoke other).Asks (Query.Withholds user) := by
  refine Asks.bind (fun found => ?_) a.loadTokens_withholds
  cases found with
  | none => trivial
  | some s =>
    refine Asks.bind (fun outcome => ?_) (a.revokeGrant_withholds s).attempt
    exact Asks.bind (fun _ => Asks.ofResult _) (callStore_withholds nofun)

theorem storeCredential_withholds (hother : other ≠ user) (c : CredentialId) :
    (a.storeCredential other c).Asks (Query.Withholds user) :=
  Listener.act_withholds (l := .saving a other) (fun _ _ h => hother (Listener.saving.inj h).2) c 0

theorem redeemAndStore_withholds (hother : other ≠ user) (code base : Given String) :
    (a.redeemAndStore other code base).Asks (Query.Withholds user) := by
  refine Asks.bind (fun c => ?_) ?_
  · refine Asks.bind (fun _ => ?_) (a.storeCredential_withholds hother c)
    exact Asks.bind (fun _ => Asks.pure _) (Asks.query (q := .listen c (.saving a other)) nofun)
  · refine Asks.bind (fun callback => ?_) (Asks.ofResult _)
    refine Asks.bind (fun response => ?_) (send_withholds _)
    refine Asks.bind (fun now => ?_) (Asks.query (q := .now) nofun)
    exact Asks.bind (fun s => a.createCredential_withholds s) (Asks.ofResult _)

end Authorizer

namespace Session

variable {user : String} {s s' t : Session}

structure Asks (P : Query → Prop) (s : Session) : Prop where
  threads : ∀ t ∈ s.threads, t.waiting.Asks P
  jobs : ∀ job ∈ s.jobs, job.Asks P

theorem Sound.of_asks {P : Query → Prop} (hs : s.Sound (fun _ => True) none) (h : s.Asks P) :
    s.Sound P none where
  threads t ht := ⟨(hs.threads t ht).1, fun _ => h.threads t ht, nofun⟩
  jobs job hjob := ⟨(hs.jobs job hjob).1, fun _ => h.jobs job hjob⟩
  waiters := hs.waiters
  bystander := nofun
  history := hs.history

theorem Step.anyhow {P : Query → Prop} (h : Step P s s') : Step (fun _ => True) s s' := by
  cases h with
  | work h => exact .work h
  | start hp => exact .start (Procedure.Asks.anything _)
  | signal aborted => exact .signal aborted
  | giveUp c id reason hborn => exact .giveUp c id reason hborn
  | endOperation number outcome => exact .endOperation number outcome
  | release gate => exact .release gate
  | reclaim => exact .reclaim
  | world w h => exact .world w h

theorem Steps.anyhow {P : Query → Prop} (h : Steps P s s') : Steps (fun _ => True) s s' :=
  Relation.ReflTransGen.mono (fun _ _ hstep => Step.anyhow hstep) _ _ h

/-- The listener of an authorizer that keeps the entry of a user is called, for a refresh of the
credential that has brought a token. -/
def WriteBack (user : String) (c : CredentialId) (s s' : Session) : Prop :=
  ∃ executor k l a n, Does (fun job => job = .effect c executor (.notify k l)) s s' ∧
    (s.held? c).listeners[l]? = some (.saving a user, n) ∧ (s.held? c).Succeeded k

/-- How a step leaves the entry of a user for whom the application stores nothing. -/
def Withheld (user : String) (s s' : Session) : Prop :=
  s'.store.find? user = s.store.find? user ∨ s'.store.find? user = none ∨
    ∃ c, WriteBack user c s s' ∧ s'.store.find? user = some (s.held? c).entry

theorem withheld_of_calls (h : TokenStore.Calls (Query.Withholds user) s.store s'.store) :
    Withheld user s s' := by
  rcases h.withheld with hsame | hnone
  · exact .inl hsame
  · exact .inr (.inl hnone)

/-- The listener of an authorizer asks nothing more once it has written. -/
theorem sound_saving {a : Authorizer} (ha : a.stores = true) {P : Query → Prop}
    (hs : s.Sound P none) {c : CredentialId} {l : Cache.ListenerId} {n : Nat}
    (hl : (s.held? c).listeners[l]? = some (.saving a user, n)) (k : Cache.RefreshId) :
    (s.callListener c k l).Sound P none := by
  obtain ⟨failure, hcall⟩ := callListener_saving ha hl k
  rw [hcall]
  have hcounted : (s.counted c l (.saving a user) n).Sound P none :=
    hs.act (.reshape c _ fun _ => ⟨rfl, rfl⟩)
  have hborn := hcounted.act .birth
  have hwritten : (({ s.counted c l (.saving a user) n with born := s.born + 1 } :
      Session).written user c).Sound P none :=
    ⟨hborn.threads, hborn.jobs, hborn.waiters, hborn.bystander, hborn.history⟩
  have hasks : (Job.resume s.born (.done (.ok (.listener c k failure)))).Asks P := trivial
  refine hwritten.put (fun _ => hasks) (fun id hid => ?_) .next
  cases hid
  exact Nat.lt_succ_self s.born

theorem ofRefresh_withholds (c : CredentialId) :
    (Credential.requestToken c).Asks (Query.Withholds user) :=
  (Credential.requestToken_asks c).mono fun _ hq =>
    Query.withholds_of_storeless (Listener.ofRefresh hq).2

/-- A piece of work stores nothing for the user, unless it is a write-back. -/
theorem work_withheld (hs : s.Sound (Query.Withholds user) none) (hinward : s.Inward)
    (hmemory : s.store.Reliable) {job : Job} (htake : s.takeJob? = some (job, t)) :
    (t.perform job).Sound (Query.Withholds user) none ∧ Withheld user s (t.perform job) := by
  have htakes := takes_of_takeJob htake
  obtain ⟨hborn, hasks⟩ := hs.jobs job htakes.mem
  have ht := hs.take htakes
  have hheld := takeJob?_held? htake
  have hstore := takeJob?_store htake
  by_cases hsaving : ∃ c executor k l a n, job = .effect c executor (.notify k l) ∧
      a.stores = true ∧ (t.held? c).listeners[l]? = some (.saving a user, n)
  · obtain ⟨c, executor, k, l, a, n, rfl, ha, hl⟩ := hsaving
    refine ⟨sound_saving ha ht hl k, .inr (.inr ⟨c, ?_, ?_⟩)⟩
    · exact ⟨executor, k, l, a, n, ⟨_, t, htake, rfl, rfl⟩, hheld c ▸ hl, hinward.succeeded htake⟩
    · show (t.callListener c k l).store.find? user = _
      rw [callListener_store ha hl, hstore, hmemory.perform_store, TokenStore.find?_insert,
        if_pos rfl, hheld]
  · have hlistener (c : CredentialId) (executor : Executor) (k : Cache.RefreshId)
        (l : Cache.ListenerId) (hjob : job = .effect c executor (.notify k l)) (x : Listener)
        (n : Nat) (hx : (t.held? c).listeners[l]? = some (x, n)) :
        (x.act c n).Asks (Query.Withholds user) :=
      Listener.act_withholds (fun a ha h => hsaving ⟨c, executor, k, l, a, n, hjob, ha, h ▸ hx⟩) c n
    have hacts := perform_acts_of ofRefresh_withholds ht.unborn_bystander ht.askers
      (hasks nofun) (htakes.born ▸ hborn) nofun hlistener
    have honward := perform_onward t (hasks nofun)
      (fun q hq => Query.withholds_of_storeless (Listener.ofRefresh hq).2) hlistener
    exact ⟨ht.acts hacts, withheld_of_calls (hstore ▸ honward.store)⟩

/-- A step stores nothing for the user, unless it is a write-back. -/
theorem Step.withheld (h : Step (Query.Withholds user) s s')
    (hs : s.Sound (Query.Withholds user) none) (hinward : s.Inward) (hmemory : s.store.Reliable) :
    s'.Sound (Query.Withholds user) none ∧ Withheld user s s' := by
  rcases h.work_or_acts hs with ⟨job, t, htake, rfl⟩ | hacts
  · exact work_withheld hs hinward hmemory htake
  · refine ⟨hs.acts hacts, ?_⟩
    rcases h.onward with ⟨job, t, htake, rfl⟩ | honward
    · exact (work_withheld hs hinward hmemory htake).2
    · exact withheld_of_calls honward.store

theorem Sound.withheld (hs : s.Sound (Query.Withholds user) none) (hinward : s.Inward)
    (hmemory : s.store.Reliable) (h : Steps (Query.Withholds user) s t) :
    t.Sound (Query.Withholds user) none := by
  induction h with
  | refl => exact hs
  | tail hbefore hstep ih =>
    have hany := Steps.anyhow hbefore
    exact (Step.withheld hstep ih (hinward.steps hs.anyhow hany) (hany.reliable hmemory)).1

/-- As long as the application stores nothing for a user, neither by a call that it makes nor by
one under way, the entry of the user only comes to be, or to be another one, when the listener
of an authorizer is told of a new token of a credential, and then it is the entry of that
credential. So a revocation is final but for what was handed out before. All other calls may be
made meanwhile: those that load or revoke, and those that store for others. -/
theorem revocation_final_but_for_write_backs {w : World} {wraps : Bool} {s : Session}
    (h₀ : Steps (fun _ => True) (w.session wraps) s) (hmemory : w.store.Reliable) (user : String)
    (hasks : s.Asks (Query.Withholds user)) :
    (∀ t t' text, Steps (Query.Withholds user) s t → Step (Query.Withholds user) t t' →
      t'.store.find? user = some text →
      t.store.find? user = some text ∨ ∃ c, WriteBack user c t t' ∧ text = (t.held? c).entry) ∧
    ∀ (a : Authorizer) other, (a.revoke other).Asks (Query.Withholds user) ∧
      (a.credential? other).Asks (Query.Withholds user) ∧
      (other ≠ user → (∀ c, (a.storeCredential other c).Asks (Query.Withholds user)) ∧
        ∀ code base, (a.redeemAndStore other code base).Asks (Query.Withholds user)) := by
  refine ⟨fun t t' text hsteps hstep hfound => ?_, fun a other => ⟨a.revoke_withholds,
    a.credential?_withholds, fun hother => ⟨a.storeCredential_withholds hother,
      a.redeemAndStore_withholds hother⟩⟩⟩
  have hsound := (sound_session w wraps).steps h₀
  have hinward := (inward_session w wraps).steps (sound_session w wraps) h₀
  have hany := hsteps.anyhow
  have hmemory' := h₀.reliable hmemory
  have ht := (hsound.of_asks hasks).withheld hinward hmemory' hsteps
  obtain ⟨-, hwithheld⟩ := hstep.withheld ht (hinward.steps hsound hany) (hany.reliable hmemory')
  rcases hwithheld with hsame | hnone | ⟨c, hback, hentry⟩
  · exact .inl (hsame ▸ hfound)
  · cases hnone.symm.trans hfound
  · exact .inr ⟨c, hback, Option.some.inj (hfound.symm.trans hentry)⟩

/-- The server accepts a revocation, and then grants a refresh. -/
def relenting : World :=
  { granting with
    replies := { outcome := .ok { status := 200, body := .ok "" } } :: granting.replies }

def handed : Session :=
  (relenting.session.spawn
    (calling "load" (Answer.credential <$> keeper.credential? "user"))).work 20

def revoked : Session :=
  (handed.spawn (calling "revoke" ((fun _ => .nothing) <$> keeper.revoke "user"))).work 20

/-- The credential is refreshed, up to where its listener is called. -/
def refreshing : Session :=
  (revoked.spawn (calling "refresh" ((fun _ => .nothing) <$> refreshToken 0))).work 6

theorem asks_of_idle {P : Query → Prop} (hthreads : s.threads.isEmpty = true)
    (hjobs : s.jobs.isEmpty = true) : s.Asks P where
  threads t ht := by
    rw [List.isEmpty_iff.mp hthreads] at ht
    cases ht
  jobs job hjob := by
    rw [List.isEmpty_iff.mp hjobs] at hjob
    cases hjob

theorem refreshToken_withholds (user name : String) (c : CredentialId) :
    (calling name ((fun _ => .nothing) <$> refreshToken c)).Asks (Query.Withholds user) := by
  have hrefresh : (refreshToken c).Asks (Query.Withholds user) := ⟨nofun, fun _ => trivial⟩
  exact hrefresh.map.attempt.map

theorem steps_refreshing : Steps (Query.Withholds "user") revoked refreshing :=
  .head (.start (refreshToken_withholds "user" "refresh" 0)) (steps_work 6 _)

theorem revocation_final_but_for_write_backs_refreshed :
    refreshing.store.find? "user" = none ∧
      ∃ c, WriteBack "user" c refreshing (refreshing.work 1) := by
  have hmemory : relenting.store.Reliable := ⟨rfl, rfl, rfl⟩
  have h₀ : Steps (fun _ => True) relenting.session handed :=
    .head (.start (Procedure.Asks.anything _)) (steps_work 20 _)
  have hasks : handed.Asks (Query.Withholds "user") :=
    asks_of_idle (by decide +kernel) (by decide +kernel)
  obtain ⟨hback, hcalls⟩ := revocation_final_but_for_write_backs h₀ hmemory "user" hasks
  have hrevoked : Steps (Query.Withholds "user") handed revoked :=
    .head (.start (hcalls keeper "user").1.map.attempt.map) (steps_work 20 _)
  have hstep : Step (Query.Withholds "user") refreshing (refreshing.work 1) :=
    step_work (by decide +kernel)
  have hgone : refreshing.store.find? "user" = none := by decide +kernel
  obtain ⟨text, htext⟩ : ∃ text, (refreshing.work 1).store.find? "user" = some text :=
    Option.isSome_iff_exists.mp (by decide +kernel)
  rcases hback _ _ text (hrevoked.trans steps_refreshing) hstep htext with hsame | ⟨c, hwrite, -⟩
  · cases hgone.symm.trans hsame
  · exact ⟨hgone, c, hwrite⟩

/-- A code is redeemed by a server that takes a second. -/
def redeeming : Session :=
  let slow : World :=
    { granting with
      replies := [{ outcome := .ok { status := 200, body := .ok laterText }, after := some 1000 },
        { outcome := .ok { status := 200, body := .ok "" } }] }
  slow.session.spawn (calling "redeem" (Answer.made <$>
    keeper.redeemAndStore "user" (.value "code") (.value "https://app.example")))

/-- Meanwhile the grant is revoked. -/
def overtaken : Session :=
  (redeeming.spawn (calling "revoke" ((fun _ => .nothing) <$> keeper.revoke "user"))).work 3

/-- The entry of a user whose grant was revoked comes back when a credential that was handed out
before is refreshed, and also when a code is redeemed that was brought before. -/
theorem revoked_entry_returns :
    (revoked.jobs.isEmpty = true ∧ revoked.store.find? "user" = none ∧
      Steps (Query.Withholds "user") revoked (refreshing.work 1) ∧
      ((refreshing.work 1).store.find? "user").isSome = true) ∧
    ((overtaken.inner ++ overtaken.agenda ++ overtaken.deferred).isEmpty = true ∧
      overtaken.store.find? "user" = none ∧
      ((overtaken.work 1).store.find? "user").isSome = true) := by
  refine ⟨⟨by decide +kernel, by decide +kernel, ?_, by decide +kernel⟩,
    by decide +kernel, by decide +kernel, by decide +kernel⟩
  exact steps_refreshing.trans (steps_work 1 _)

end Session
end Bearer
