import Bearer.Proofs.Authorizer.Redemption
import Bearer.Proofs.Authorizer.WriteBack

namespace Bearer

namespace Session

open Authorizer Procedure

variable {a : Authorizer} {name user : String} {c : CredentialId} {i : Cache.CallerId}
  {s s' t : Session} {restored : Prop}

/-- Whoever listens from the start is the first to hear of all new tokens. -/
theorem saves_heard {credential : Credential} {u : User} (hc : c < s.held.length)
    (h : s.held? c = .fresh credential) (hkind : credential.kind = .user u) :
    Saves a user c (s.heard c (.saving a user)) := by
  have hheard := held?_heard hc h (.saving a user)
  refine ⟨⟨u, ?_⟩, ⟨0, ?_⟩, ?_⟩ <;> rw [hheard]
  · exact hkind
  · rfl
  · rfl

/-- The store follows a credential of a user, in every run in which nobody else writes the user's
entry. -/
structure Followed (user : String) (c : CredentialId) (restored : Prop) (s : Session) : Prop where
  /-- When nothing is left of what is being done, and before any thread goes on, the entry is
  that of the credential, or still the one from before the first success. -/
  current : ∀ t, OwnedRun (WritesBack c) user s t →
    (t.inner = [] ∨ ∃ id p u, t.takeJob? = some (.resume id p, u)) →
    Current user c t ∨ (restored ∧ Untouched user c s t)
  /-- A failure changes neither the entry nor the token, nor does it lead to that. -/
  failed : ∀ t, OwnedRun (WritesBack c) user s t → ∀ k failure u,
    t.takeJob? = some (.process c k, u) →
    (t.held? c).cache.stage? k = some (.settled (.error failure)) →
    let t' := u.perform (.process c k)
    t'.store = t.store ∧ (t'.held? c).cache.token = (t.held? c).cache.token ∧
      (Lagging c t' → Lagging c t)
  /-- What is written has been brought by a refresh. -/
  brought : ∀ t, OwnedRun (WritesBack c) user s t → ∀ executor k u,
    t.takeJob? = some (.effect c executor (.notify k 0), u) → (t.held? c).Succeeded k
  written : ∀ t, OwnedRun (WritesBack c) user s t → ∀ t', Does (WritesBack c) t t' →
    Current user c t' ∧ ∀ other, other ≠ user → t'.store.find? other = t.store.find? other

theorem Stands.run (h : Stands user c restored s s) (hsaves : Saves a user c s)
    (ha : a.stores = true) (hs : s.store.Reliable) (hrun : OwnedRun (WritesBack c) user s t) :
    Stands user c restored s t := by
  induction hrun with
  | refl => exact h
  | tail hbefore hstep ih =>
    have hsteps := OwnedRun.steps hbefore
    exact ih.step (hsaves.steps hsteps) ha (hsteps.reliable hs) hstep

/-- No listener is called for a failure. -/
theorem failed_calls {set : Cache.Settings} {cache : Cache.State} {k j : Cache.RefreshId}
    {failure : Thrown} (h : cache.stage? k = some (.settled (.error failure)))
    (l : Cache.ListenerId) : .notify j l ∉ (Cache.step set (.process k) cache).2 := by
  intro hcall
  have hnone : Cache.callsFor j (Cache.step set (.process k) cache).2 = [] := by
    simp [Cache.step, Cache.State.process, h]
  have hmem : l ∈ Cache.callsFor j (Cache.step set (.process k) cache).2 :=
    List.mem_filterMap.mpr ⟨_, hcall, by simp [Cache.Effect.called?]⟩
  rw [hnone] at hmem
  cases hmem

theorem failed_quiet {k : Cache.RefreshId} {failure : Thrown} {u : Session}
    (htake : t.takeJob? = some (.process c k, u))
    (hfailed : (t.held? c).cache.stage? k = some (.settled (.error failure))) :
    let t' := u.perform (.process c k)
    t'.store = t.store ∧ (t'.held? c).cache.token = (t.held? c).cache.token ∧
      (Lagging c t' → Lagging c t) := by
  have hheld : u.held? c = t.held? c := takeJob?_held? htake c
  have hstore : u.store = t.store := takeJob?_store htake
  refine ⟨hstore, ?_, fun ⟨job, hjob, hwrites⟩ => ?_⟩
  · show ((u.stepCache c .direct (.process k)).held? c).cache.token = _
    rw [held?_stepCache]
    split
    · rw [Cache.State.token_step, hheld]
      simp [Cache.State.installs?, hfailed]
    · rw [hheld]
  · rcases List.mem_append.mp hjob with hjob | hjob
    · obtain ⟨effect, heffect, rfl⟩ := List.mem_map.mp hjob
      obtain ⟨executor, j, heq⟩ := hwrites
      cases heq
      rw [hheld] at heffect
      exact absurd heffect (failed_calls hfailed 0)
    · refine ⟨job, ?_, hwrites⟩
      cases takes_of_takeJob htake with
      | inner hinner => exact hinner ▸ List.mem_cons_of_mem _ hjob
      | _ => exact hjob

theorem Saves.followed (hsaves : Saves a user c s) (ha : a.stores = true)
    (hs : s.Sound (fun _ => True) none) (hinward : s.Inward) (hmemory : s.store.Reliable)
    (h : Stands user c restored s s) : Followed user c restored s where
  current t hrun hidle := by
    have hinner : t.inner = [] := by
      rcases hidle with hinner | ⟨id, p, u, htake⟩
      · exact hinner
      · exact (hinward.steps hs hrun.steps).inner_eq_nil htake
    rcases h.run hsaves ha hmemory hrun with hcurrent | huntouched | ⟨job, hjob, -⟩
    · exact .inl hcurrent
    · exact .inr huntouched
    · rw [hinner] at hjob
      cases hjob
  failed t _ k failure u htake hfailed := failed_quiet htake hfailed
  brought t hrun executor k u htake := (hinward.steps hs hrun.steps).succeeded htake
  written t hrun t' hdoes := by
    obtain ⟨hstore, hentry⟩ :=
      (hsaves.steps hrun.steps).writes ha (hrun.steps.reliable hmemory) hdoes
    refine ⟨?_, fun other hother => ?_⟩
    · rw [Current, hstore, TokenStore.find?_insert, if_pos rfl, hentry]
    · rw [hstore, TokenStore.find?_insert, if_neg hother]

theorem adopt_acts (s : Session) (credential : Credential) (l : Listener) :
    Acts (fun _ => True) (some i) s (s.adopt credential l) :=
  .head (.create credential) (heard_acts _ _ l)

/-- What restoring comes to when the entry is there. -/
theorem advance_restore_cases (a : Authorizer) (name user : String) (found : Option String)
    (i : Cache.CallerId) (s : Session) :
    let s' := advance i (calling name (Answer.credential <$> a.restore user found)) s
    (∃ outcome, s' = s.observe (.answered name outcome) ∧ ∀ c, outcome ≠ .ok (Answer.made c)) ∨
      ∃ credential u, credential.kind = .user u ∧
        s' = (s.adopt credential (.saving a user)).observe
          (.answered name (.ok (Answer.made s.held.length))) := by
  rcases found with - | text
  · exact .inl ⟨_, rfl, nofun⟩
  cases hread : Stored.ofText text with
  | error failure =>
    refine .inl ⟨.error failure, ?_, nofun⟩
    show advance i (calling name
      (Answer.credential <$> (ofResult (Stored.ofText text) >>= _))) s = _
    rw [hread]
    rfl
  | ok stored =>
    dsimp only
    rw [advance_restore a user hread]
    cases hmade : a.credentialOf stored with
    | error failure => exact .inl ⟨.error failure, rfl, nofun⟩
    | ok credential =>
      obtain ⟨u, hkind⟩ := credentialOf_kind hmade
      exact .inr ⟨credential, u, hkind, rfl⟩

/-- The thread `i` is on its way to restore the credential of a user. -/
abbrev Restores (a : Authorizer) (name user : String) (i : Cache.CallerId)
    (found : Option String) : Session → Prop :=
  Phased i fun program _ => program = none ∨
    program = some (calling name (Answer.credential <$> a.restore user found))

theorem Restores.run {found : Option String} (h : Restores a name user i found s)
    (hrun : Steps (fun _ => True) s s') : Restores a name user i found s' := by
  refine Phased.run (fun _ _ hstep => hstep) (fun s t p htake hnone hphase => ?_)
    (fun program s s' _ _ _ hphase => hphase) h hrun
  obtain rfl := Option.some.inj (hphase.resolve_left nofun)
  rcases advance_restore_cases a name user found i t with
    ⟨outcome, hs, -⟩ | ⟨credential, u, -, hs⟩ <;> rw [hs]
  · exact ⟨none, hnone.act (.observe _ trivial), .inl rfl⟩
  · exact ⟨none, (hnone.acts (adopt_acts _ _ _)).act (.observe _ trivial), .inl rfl⟩

theorem restores_spawn (ha : a.stores = true) (hs : s.Sound (fun _ => True) none)
    (hmemory : s.store.Reliable) (name user : String) :
    Restores a name user s.born (s.store.find? user)
      (s.spawn (calling name (Answer.credential <$> a.credential? user))) := by
  rw [credential?_eq ha, spawn_load hmemory]
  exact ⟨_, (hs.alone.act (.observe (.stored (.load user)) trivial)).put .next, .inr rfl⟩

theorem Restores.entry {found : Option String} (h : Restores a name user i found s)
    (hrun : OwnedRun (Job.Of i) user s s') : s'.store.find? user = s.store.find? user := by
  induction hrun with
  | refl => rfl
  | @tail t t' hbefore hstep ih =>
    rcases hstep.2 with ⟨job, u, htake, hown, rfl⟩ | hentry
    · obtain ⟨p, rfl, hphase, -⟩ := (h.run (OwnedRun.steps hbefore)).own htake hown
      obtain rfl := Option.some.inj (hphase.resolve_left nofun)
      have hstore :
          (advance i (calling name (Answer.credential <$> a.restore user found)) u).store =
            u.store := by
        rcases advance_restore_cases a name user found i u with
          ⟨outcome, hs, -⟩ | ⟨credential, v, -, hs⟩ <;> rw [hs] <;> rfl
      show (advance i _ u).store.find? user = _
      rw [hstore, takeJob?_store htake, ih]
    · exact hentry.trans ih

theorem Settles.step {outcome : Result Answer} (h : Settles i name outcome s s') :
    Step (fun _ => True) s s' := by
  obtain ⟨p, t, htake, rfl, -⟩ := h
  exact .work htake

/-- A credential that was stored is listened to when it is handed out, and nothing has come of it
yet. -/
theorem Restores.settles {found : Option String} (h : Restores a name user i found t)
    (hsettles : Settles i name (.ok (Answer.made c)) t s) :
    Saves a user c s ∧ (s.held? c).cache.Barren ∧ s.store = t.store := by
  obtain ⟨p, u, htake, rfl, htrace⟩ := hsettles
  obtain ⟨_, heq, hphase, -⟩ := Phased.own h htake rfl
  cases heq
  obtain rfl := Option.some.inj (hphase.resolve_left nofun)
  rcases advance_restore_cases a name user found i u with
    ⟨outcome, hs, hnone⟩ | ⟨credential, v, hkind, hs⟩
  · rw [perform, hs] at htrace
    obtain ⟨-, houtcome⟩ := Observation.answered.inj (List.cons.inj htrace).1
    exact absurd houtcome (hnone c)
  · rw [perform, hs] at htrace ⊢
    obtain ⟨-, houtcome⟩ := Observation.answered.inj (List.cons.inj htrace).1
    cases houtcome
    have hheld := held?_adopt u credential (.saving a user)
    have hsaves : Saves a user u.held.length (u.adopt credential (.saving a user)) :=
      saves_heard (held_lt_make u credential) (held?_make u credential) hkind
    have hstore : u.store = t.store := takeJob?_store htake
    refine ⟨⟨hsaves.kind, hsaves.listener, hsaves.first⟩, ?_, hstore⟩
    show ((u.adopt credential (.saving a user)).held? u.held.length).cache.Barren
    rw [hheld]
    exact Cache.State.barren_initial credential.token

/-- A credential that a code has brought is in the store when it is handed out. -/
theorem Redeems.settles (ha : a.stores = true) (h : Redeems a name user i t)
    (hunused : t.held? c = .fresh (t.held? c).credential)
    (hsettles : Settles i name (.ok (Answer.made c)) t s) :
    Saves a user c s ∧ Current user c s := by
  obtain ⟨p, u, htake, rfl, htrace⟩ := hsettles
  have hheld : u.held? c = t.held? c := takeJob?_held? htake c
  rw [← hheld] at hunused
  obtain ⟨⟨hc, ⟨v, hkind⟩, hentry⟩, hs⟩ := (Redeems.own ha h htake rfl).2 c htrace
  have hsaves : Saves a user c (u.heard c (.saving a user)) := saves_heard hc hunused hkind
  have hheard := held?_heard hc hunused (.saving a user)
  rw [hs]
  refine ⟨⟨hsaves.kind, hsaves.listener, hsaves.first⟩, ?_⟩
  show u.store.find? user = some ((u.heard c (.saving a user)).held? c).entry
  rw [hentry, hheard]
  rfl

/-- Whoever gets a credential that was stored, or that a code has brought, gets one that the
store follows. One that a code has brought is in nobody's hands before the call comes back, so that
it is then still as it was made. -/
theorem store_follows_credential {w : World} {wraps : Bool} {s₀ : Session}
    (h₀ : Steps (fun _ => True) (w.session wraps) s₀) (hmemory : w.store.Reliable)
    {a : Authorizer} (ha : a.stores = true) (name user : String) :
    (∀ c, (Credential.requestToken c).Asks Query.Storeless) ∧
    (∀ c t s,
      let start := s₀.spawn (calling name (Answer.credential <$> a.credential? user))
      Steps (fun _ => True) start t → Settles s₀.born name (.ok (Answer.made c)) t s →
        Followed user c True s ∧
        (OwnedRun (Job.Of s₀.born) user start t →
          s.store.find? user = s₀.store.find? user)) ∧
    ∀ code base c t s,
      let start := s₀.spawn (calling name (Answer.made <$> a.redeemAndStore user code base))
      OwnedRun (Job.Of s₀.born) user start t → t.held? c = .fresh (t.held? c).credential →
        Settles s₀.born name (.ok (Answer.made c)) t s → Followed user c False s := by
  have hsound₀ := (sound_session w wraps).steps h₀
  have hmemory₀ := h₀.reliable hmemory
  have hinward₀ := (inward_session w wraps).steps (sound_session w wraps) h₀
  refine ⟨fun c => (Credential.requestToken_asks c).mono fun q hq => (Listener.ofRefresh hq).2,
    ?_, ?_⟩
  · intro c t s start hsteps hsettles
    have hall : Steps (fun _ => True) s₀ s :=
      (Relation.ReflTransGen.head (.start (Procedure.Asks.anything _)) hsteps).tail hsettles.step
    have hrestores := restores_spawn ha hsound₀ hmemory₀ name user
    obtain ⟨hsaves, hbarren, hstore⟩ := (hrestores.run hsteps).settles hsettles
    refine ⟨hsaves.followed ha (hsound₀.steps hall) (hinward₀.steps hsound₀ hall)
      (hall.reliable hmemory₀) (.inr (.inl ⟨trivial, hbarren, rfl, rfl⟩)), fun hrun => ?_⟩
    have hstart : start.store = s₀.store := by
      show (s₀.spawn _).store = _
      rw [credential?_eq ha, spawn_load hmemory₀]
      rfl
    rw [hstore, hrestores.entry hrun, hstart]
  · intro code base c t s start hrun hunused hsettles
    have hall : Steps (fun _ => True) s₀ s :=
      (Relation.ReflTransGen.head (.start (Procedure.Asks.anything _)) hrun.steps).tail
        hsettles.step
    have hredeems : Redeems a name user s₀.born start :=
      redeems_spawn hsound₀ hmemory₀ name user code base
    obtain ⟨hsaves, hcurrent⟩ := (hredeems.run ha hrun).settles ha hunused hsettles
    exact hsaves.followed ha (hsound₀.steps hall) (hinward₀.steps hsound₀ hall)
      (hall.reliable hmemory₀) (.inl hcurrent)

def isWriteBack (c : CredentialId) : Job → Bool
  | .effect d _ (.notify _ l) => d = c && l = 0
  | _ => false

theorem writesBack_of_isWriteBack {job : Job} (h : isWriteBack c job = true) :
    WritesBack c job := by
  unfold isWriteBack at h
  split at h
  · next d executor k l =>
    simp only [Bool.and_eq_true, decide_eq_true_eq] at h
    obtain ⟨rfl, rfl⟩ := h
    exact ⟨executor, k, rfl⟩
  · cases h

def grantText : String := (Stored.document ⟨none, some "grant"⟩).render

def laterText : String := "\x7b\"access_token\":\"later\",\"expires_in\":3600\x7d"

def granting : World where
  now := 0
  replies := [{ outcome := .ok { status := 200, body := .ok laterText } }]
  store := { entries := [("user", grantText), ("other", "kept")] }

def loading : Session :=
  granting.session.spawn (calling "load" (Answer.credential <$> keeper.credential? "user"))

def loaded : Session := loading.work 1

def refreshed : Session :=
  (loaded.spawn (calling "refresh" ((fun _ => .nothing) <$> refreshToken 0))).work 20

theorem settles_work {outcome : Result Answer} {p : Procedure Ending}
    (htake : s.takeJob? = some (.resume i p, t))
    (hdone : advance i p t = s'.observe (.answered name outcome)) (htrace : s'.trace = t.trace) :
    Settles i name outcome s (s.work 1) := by
  have hwork : s.work 1 = advance i p t := by
    rw [work, htake]
    rfl
  refine ⟨p, t, htake, hwork, ?_⟩
  rw [hwork, hdone]
  exact congrArg (_ :: ·) htrace

/-- A code is redeemed by a server that answers this at once. -/
def redemptionAnswered (response : Http.Response) : Session :=
  let w : World := { now := 0, replies := [{ outcome := .ok response }] }
  w.session.spawn (calling "redeem" (Answer.made <$>
    keeper.redeemAndStore "user" (.value "code") (.value "https://app.example")))

/-- The credential that is made of the answer is handed out as it was made. -/
theorem redemptionAnswered_settles {response : Http.Response} {credential : Credential}
    (hmade : (tokensIn response 0 >>= keeper.credentialOf) = .ok credential) :
    ∃ t s, OwnedRun (Job.Of 0) "user" (redemptionAnswered response) t ∧
      t.held? 0 = .fresh credential ∧ Settles 0 "redeem" (.ok (Answer.made 0)) t s ∧
      s.inner = [] := by
  obtain ⟨callback, hcallback⟩ :
      ∃ callback, keeper.callback (.value "https://app.example") = .ok callback := ⟨_, rfl⟩
  let w : World := { now := 0, replies := [{ outcome := .ok response }] }
  have hstart : redemptionAnswered response = w.session.spawn (calling "redeem" (Answer.made <$>
      (.ask (.send (keeper.redemption (.value "code") callback)) (keeper.redeemed "user") :
        Procedure CredentialId))) := by
    rw [redemptionAnswered, redeemAndStore_eq, hcallback]
    rfl
  obtain ⟨asked, htake, hnow, hheld, hinner, hagenda, hmemory⟩ : ∃ asked : Session,
      (redemptionAnswered response).takeJob? = some (.resume 0 (calling "redeem"
        (Answer.made <$> keeper.redeemed "user" (.ok response))), asked) ∧
      asked.read.1 = 0 ∧ asked.read.2.held = [] ∧ asked.read.2.inner = [] ∧
      asked.read.2.agenda = [] ∧ asked.store.Reliable := by
    rw [hstart]
    exact ⟨_, rfl, rfl, rfl, rfl, rfl, rfl, rfl, rfl⟩
  let deposited := (asked.read.2.make credential).written "user" 0
  have hstored : advance 0 (calling "redeem" (Answer.made <$>
      keeper.redeemed "user" (.ok response))) asked =
        deposited.doNext (.resume 0 (handing keeper "redeem" "user" 0)) := by
    rw [advance_redeemed rfl hmemory (hnow.symm ▸ hmade), hheld]
    rfl
  have hnext : (deposited.doNext (.resume 0 (handing keeper "redeem" "user" 0))).takeJob? =
      some (.resume 0 (handing keeper "redeem" "user" 0), deposited) :=
    takeJob?_doNext hinner hagenda
  have hfresh := held?_make asked.read.2 credential
  rw [hheld] at hfresh
  refine ⟨_, _, .single ⟨.work htake, .inl ⟨_, _, htake, rfl, rfl⟩⟩, ?_,
    ⟨_, _, (congrArg takeJob? hstored).trans hnext, rfl, rfl⟩, hinner⟩
  show (advance 0 _ asked).held? 0 = _
  rw [hstored]
  exact hfresh

def granted : Http.Response := { status := 200, body := .ok laterText }

theorem granted_brings :
    ∃ credential, (tokensIn granted 0 >>= keeper.credentialOf) = .ok credential := by
  have hbrings : (tokensIn granted 0 >>= keeper.credentialOf).toOption.isSome = true := by
    decide +kernel
  cases h : tokensIn granted 0 >>= keeper.credentialOf with
  | ok credential => exact ⟨credential, rfl⟩
  | error failure =>
    rw [h] at hbrings
    cases hbrings

theorem store_follows_credential_refreshed :
    (OwnedRun (WritesBack 0) "user" loaded refreshed ∧ refreshed.inner = [] ∧
      ((refreshed.held? 0).cache.token.map Token.value) = some "later" ∧
      refreshed.store.find? "user" = some (refreshed.held? 0).entry) ∧
    ∃ t s, OwnedRun (Job.Of 0) "user" (redemptionAnswered granted) t ∧
      Settles 0 "redeem" (.ok (Answer.made 0)) t s ∧
      s.store.find? "user" = some (s.held? 0).entry := by
  have hmemory : granting.session.store.Reliable := ⟨rfl, rfl, rfl⟩
  have hread : Stored.ofText grantText = .ok ⟨none, some "grant"⟩ :=
    Stored.ofText_document (s := ⟨none, some "grant"⟩) nofun
  have hfound : granting.session.store.find? "user" = some grantText := rfl
  let asked := ({ granting.session with born := 1 } : Session).observe (.stored (.load "user"))
  have hloading : loading = asked.doNext (.resume 0 (calling "load"
      (Answer.credential <$> keeper.restore "user" (some grantText)))) := by
    have hload := spawn_load hmemory "load" "user" Answer.credential (keeper.restore "user")
    rw [← credential?_eq (a := keeper) rfl, hfound] at hload
    exact hload
  have hsettles : Settles 0 "load" (.ok (Answer.made 0)) loading loaded := by
    obtain ⟨credential, hmade⟩ : ∃ credential,
        keeper.credentialOf ⟨none, some "grant"⟩ = .ok credential := ⟨_, rfl⟩
    have htake := congrArg takeJob? hloading
    have hdone := advance_restore keeper "user" hread asked 0 "load"
    rw [hmade] at hdone
    exact settles_work htake hdone rfl
  have hrefl : Steps (fun _ => True) granting.session granting.session := .refl
  obtain ⟨-, hrestored, -⟩ := store_follows_credential hrefl hmemory (a := keeper) rfl "load" "user"
  obtain ⟨hfollowed, -⟩ := hrestored 0 loading loaded .refl hsettles
  have hbegins : OwnedStep (WritesBack 0) "user" loaded
      (loaded.spawn (calling "refresh" ((fun _ => .nothing) <$> refreshToken 0))) :=
    ⟨.start (Procedure.Asks.anything _), .inr (by decide +kernel)⟩
  have hrun : OwnedRun (WritesBack 0) "user" loaded refreshed :=
    .head hbegins (ownedRun_work (fun _ => writesBack_of_isWriteBack) (by decide +kernel))
  have hinner : refreshed.inner = [] := List.isEmpty_iff.mp (by decide +kernel)
  have hlater : ((refreshed.held? 0).cache.token.map Token.value) = some "later" := by
    decide +kernel
  refine ⟨⟨hrun, hinner, hlater,
    (hfollowed.current refreshed hrun (.inl hinner)).resolve_right ?_⟩, ?_⟩
  · rintro ⟨-, huntouched⟩
    have hnone : ((loaded.held? 0).cache.token.map Token.value) = none := by decide +kernel
    rw [← huntouched.token, hlater] at hnone
    cases hnone
  · obtain ⟨credential, hmade⟩ := granted_brings
    obtain ⟨t, s, howned, hfresh, hcomes, hquiet⟩ := redemptionAnswered_settles hmade
    let w : World := { now := 0, replies := [{ outcome := .ok granted }] }
    have hanew : Steps (fun _ => True) w.session w.session := .refl
    obtain ⟨-, -, hredeemed⟩ :=
      store_follows_credential hanew ⟨rfl, rfl, rfl⟩ (a := keeper) rfl "redeem" "user"
    have hbrought := hredeemed (.value "code") (.value "https://app.example") 0 t s howned
      (by rw [hfresh]; rfl) hcomes
    exact ⟨t, s, howned, hcomes,
      (hbrought.current s .refl (.inl hquiet)).resolve_right fun h => h.1⟩

end Session
end Bearer
