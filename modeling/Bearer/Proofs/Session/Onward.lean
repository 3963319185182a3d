import Bearer.Proofs.Cache.Successes
import Bearer.Proofs.Session.Steps
import Bearer.Proofs.TokenStore

namespace Bearer.Session

/-- What becomes of one credential. -/
structure Carries (c : CredentialId) (s s' : Session) : Prop where
  user : ∀ u, (s.held? c).credential.kind = .user u → (s'.held? c).credential.kind = .user u
  listeners : ∀ (l : Cache.ListenerId) (x : Listener) (n : Nat),
    (s.held? c).listeners[l]? = some (x, n) → ∃ m, (s'.held? c).listeners[l]? = some (x, m)
  first : ∀ l, (s.held? c).cache.listeners.head? = some l →
    (s'.held? c).cache.listeners.head? = some l
  news : ∀ l, (s.held? c).cache.listeners.head? = some l →
    ((s'.held? c).cache.token = (s.held? c).cache.token ∧
      ((s.held? c).cache.Barren → (s'.held? c).cache.Barren)) ∨
    ∃ executor k, .effect c executor (.notify k l) ∈ s'.inner

/-- What work comes to that asks nothing of the store but this. -/
structure Onward (P : Query → Prop) (s s' : Session) : Prop where
  inner : s.inner <:+ s'.inner
  store : TokenStore.Calls P s.store s'.store
  held : ∀ c, Carries c s s'

variable {P : Query → Prop} {s s' s'' : Session} {c : CredentialId}

theorem Carries.of_eq (h : s'.held? c = s.held? c) : Carries c s s' where
  user u hu := h ▸ hu
  listeners l x n hl := ⟨n, h ▸ hl⟩
  first l hl := h ▸ hl
  news l _ := .inl ⟨by rw [h], fun hb => h ▸ hb⟩

theorem Carries.trans (h : Carries c s s') (h' : Carries c s' s'')
    (hinner : s'.inner <:+ s''.inner) : Carries c s s'' where
  user u hu := h'.user u (h.user u hu)
  listeners l x n hl := by
    obtain ⟨m, hm⟩ := h.listeners l x n hl
    exact h'.listeners l x m hm
  first l hl := h'.first l (h.first l hl)
  news l hl := by
    rcases h.news l hl with ⟨htoken, hbarren⟩ | ⟨executor, k, hpending⟩
    · rcases h'.news l (h.first l hl) with ⟨htoken', hbarren'⟩ | hpending
      · exact .inl ⟨htoken'.trans htoken, fun hb => hbarren' (hbarren hb)⟩
      · exact .inr hpending
    · exact .inr ⟨executor, k, hinner.subset hpending⟩

namespace Onward

theorem trans (h : Onward P s s') (h' : Onward P s' s'') : Onward P s s'' where
  inner := h.inner.trans h'.inner
  store := h.store.trans h'.store
  held c := (h.held c).trans (h'.held c) h'.inner

theorem of_eq (hinner : s'.inner = s.inner) (hstore : s'.store = s.store)
    (hheld : s'.held = s.held) : Onward P s s' where
  inner := hinner ▸ List.suffix_refl _
  store := hstore ▸ .refl
  held c := .of_eq (by rw [held?, held?, hheld])

theorem refl : Onward P s s := of_eq rfl rfl rfl

theorem cache (s : Session) (c : CredentialId) (executor : Executor) (e : Cache.Event) :
    Onward P s (s.stepCache c executor e) where
  inner := List.suffix_append _ _
  store := .refl
  held d := by
    have hd := held?_stepCache s c d executor e
    split at hd
    · next hdc =>
      obtain ⟨rfl, -⟩ := hdc
      refine ⟨fun u hu => by rw [hd]; exact hu, fun l x n hl => ⟨n, by rw [hd]; exact hl⟩,
        fun l hl => ?_, fun l hl => ?_⟩
      · rw [hd]
        exact Cache.State.first_step hl
      · rw [hd]
        refine (Cache.State.quiet_or_notify hl).imp_right fun ⟨k, hk⟩ => ⟨executor, k, ?_⟩
        exact List.mem_append_left _ (List.mem_map_of_mem hk)
    · exact .of_eq hd

theorem reshape (s : Session) (c : CredentialId) {f : Held → Held}
    (hcache : ∀ h, (f h).cache = h.cache)
    (huser : ∀ h u, h.credential.kind = .user u → (f h).credential.kind = .user u)
    (hlisteners : ∀ (l : Cache.ListenerId) (x : Listener) (n : Nat),
      (s.held? c).listeners[l]? = some (x, n) → ∃ m, (f (s.held? c)).listeners[l]? = some (x, m)) :
    Onward P s (s.modifyHeld c f) where
  inner := List.suffix_refl _
  store := .refl
  held d := by
    have hd := held?_modifyHeld s c d f
    split at hd
    · next hdc =>
      obtain ⟨rfl, -⟩ := hdc
      refine ⟨fun u hu => by rw [hd]; exact huser _ u hu,
        fun l x n hl => by rw [hd]; exact hlisteners l x n hl, fun l hl => ?_, fun l hl => .inl ?_⟩
      · rw [hd, hcache]
        exact hl
      · rw [hd, hcache]
        exact ⟨rfl, id⟩
    · exact .of_eq hd

theorem create (s : Session) (credential : Credential) :
    Onward P s
      { s with held := s.held ++ [{ credential, cache := { token := credential.token } }] } where
  inner := List.suffix_refl _
  store := .refl
  held d := by
    have hd := held?_create s credential d
    split at hd
    · next hnew =>
      -- Nothing was held there before.
      have hnone : s.held? d = default := by
        rw [held?, List.getD_eq_getElem?_getD, hnew, List.getElem?_eq_none (Nat.le_refl _),
          Option.getD_none]
      have hfirst (l : Cache.ListenerId) : (s.held? d).cache.listeners.head? ≠ some l := by
        rw [hnone]
        exact (Option.some_ne_none l).symm
      refine ⟨fun u hu => ?_, fun l x n hl => ?_, fun l hl => absurd hl (hfirst l),
        fun l hl => absurd hl (hfirst l)⟩
      · rw [hnone] at hu
        cases hu
      · rw [hnone] at hl
        cases hl
    · exact .of_eq hd

end Onward

theorem read_onward (s : Session) : Onward P s s.read.2 := by
  unfold Session.read
  split <;> exact .of_eq rfl rfl rfl

theorem readFor_onward (s : Session) (cache : Cache.State) : Onward P s (s.readFor cache).2 := by
  unfold readFor
  split
  · split
    · exact .refl
    · exact read_onward s
  · exact .refl

theorem takeReply_onward (s : Session) (r : Http.Request) : Onward P s (s.takeReply r).2 := by
  unfold takeReply
  split <;> exact .of_eq rfl rfl rfl

theorem transmit_onward (s : Session) (r : Http.Request) : Onward P s (s.transmit r).2 := by
  unfold transmit transmitWrapped
  split
  · have htake : Onward P s (if Http.Network.leaves r then s.takeReply r
        else ({ outcome := .error (unexpected r) }, s)).2 := by
      split
      · exact takeReply_onward s r
      · exact .refl
    generalize (if Http.Network.leaves r then s.takeReply r
      else ({ outcome := .error (unexpected r) }, s)) = taken at htake
    dsimp only
    split
    · exact htake.trans (.of_eq rfl rfl rfl)
    · exact htake
  · exact (Onward.of_eq rfl rfl rfl : Onward P s (s.observe (.sent r))).trans
      (takeReply_onward _ r)

theorem arrive_onward (s : Session) (reply : Reply) (job : Job) :
    Onward P s (s.arrive reply job) := by
  unfold arrive
  split
  · exact .refl
  · split <;> exact .of_eq rfl rfl rfl

theorem startOperation_onward (s : Session) (id : Cache.CallerId)
    (next : Result Token → Procedure Ending) : Onward P s (s.startOperation id next) := by
  unfold startOperation
  dsimp only
  split <;> exact .of_eq rfl rfl rfl

theorem finish_onward (s : Session) (e : Ending) : Onward P s (s.finish e) := by
  cases e with
  | operation c k outcome => exact .cache s c .direct (.settle k outcome)
  | _ => exact .of_eq rfl rfl rfl

/-- A thread that waits has a cache look for its token. -/
theorem ask_onward (s : Session) (id : Cache.CallerId) (w : Waiting) (c : CredentialId)
    (executor : Executor) (e : Cache.Event) :
    Onward P s ((s.block id w).stepCache c executor e) :=
  (Onward.of_eq rfl rfl rfl : Onward P s (s.block id w)).trans (.cache _ c executor e)

theorem advance_onward (id : Cache.CallerId) {p : Procedure Ending} (hp : p.Asks P) :
    Onward P s (advance id p s) := by
  induction p generalizing s with
  | done outcome =>
    cases outcome with
    | error failure => exact .refl
    | ok e => exact finish_onward s e
  | ask q next ih =>
    obtain ⟨hq, hnext⟩ := hp
    -- Whatever is done first, the thread goes on from there.
    have onward {s' : Session} (h : Onward P s s') (r : Bearer.Reply q) :
        Onward P s (advance id (next r) s') := h.trans (ih r (hnext r))
    cases q with
    | now => exact onward (read_onward s) _
    | note n =>
      have hnote : Onward P s (s.observe (.noted n)) := .of_eq rfl rfl rfl
      exact onward hnote ()
    | send r => exact (transmit_onward s r).trans (arrive_onward _ _ _)
    | read path => exact .of_eq rfl rfl rfl
    | store call =>
      have hcall : Onward P s { s with store := (s.store.perform call).1 } :=
        ⟨List.suffix_refl _, .single ⟨call, hq, rfl⟩, fun c => .of_eq rfl⟩
      exact hcall.trans (.of_eq rfl rfl rfl)
    | fetch c executor signal =>
      rw [advance_fetch]
      exact ((readFor_onward s _).trans (readFor_onward _ _)).trans (ask_onward _ id _ c executor _)
    | refresh c signal => exact ask_onward s id _ c .direct _
    | refreshIfExpired c signal =>
      rw [advance_refreshIfExpired]
      exact (readFor_onward s _).trans (ask_onward _ id _ c .direct _)
    | credential c => exact onward .refl _
    | cached c => exact onward .refl _
    | freshness c => exact onward (readFor_onward s _) _
    | create credential => exact onward (.create s credential) _
    | redirect c source =>
      refine onward (.reshape s c (fun h => ?_) (fun h u hu => ?_) fun l x n hl => ?_) ()
      · split <;> rfl
      · split
        · next hkind => exact nomatch hkind.symm.trans hu
        · exact hu
      · split <;> exact ⟨n, hl⟩
    | listen c l =>
      have hadd : Onward P s
          (s.modifyHeld c fun h => { h with listeners := h.listeners ++ [(l, 0)] }) := by
        refine .reshape s c (fun h => rfl) (fun h u hu => hu) fun m x n hm => ⟨n, ?_⟩
        have hlt := (List.getElem?_eq_some_iff.mp hm).1
        exact (List.getElem?_append_left hlt).trans hm
      exact onward (hadd.trans (.cache _ c .direct (.listen _))) ()
    | callbackFailed c failure => exact onward (.cache s c .direct _) ()
    | operation c => exact startOperation_onward s id next
    | gate name => exact .of_eq rfl rfl rfl
    | rest => exact .of_eq rfl rfl rfl

theorem spawn_onward {p : Procedure Ending} (hp : p.Asks P) : Onward P s (s.spawn p) :=
  (Onward.of_eq rfl rfl rfl : Onward P s { s with born := s.born + 1 }).trans
    (advance_onward s.born hp)

theorem send_store (s : Session) (r : Http.Request) (id : Cache.CallerId)
    (next : Result Http.Response → Procedure Ending) :
    (advance id (.ask (.send r) next) s).store = s.store := by
  have honward : Onward (fun _ => False) s (advance id (.ask (.send r) next) s) :=
    (transmit_onward s r).trans (arrive_onward _ _ _)
  exact honward.store.eq fun _ h => h

theorem answer_onward (s : Session) (id : Cache.CallerId) (outcome : Result (Option Token)) :
    Onward P s (s.answer id outcome) := by
  unfold answer
  split
  · exact .of_eq rfl rfl rfl
  · exact .refl

theorem callListener_onward (s : Session) (c : CredentialId) (k : Cache.RefreshId)
    (l : Cache.ListenerId)
    (hl : ∀ x n, (s.held? c).listeners[l]? = some (x, n) → (x.act c n).Asks P) :
    Onward P s (s.callListener c k l) := by
  unfold callListener
  split
  · exact .of_eq rfl rfl rfl
  · next x n hx =>
    have hcount : Onward P s
        (s.modifyHeld c fun h => { h with listeners := h.listeners.set l (x, n + 1) }) := by
      refine .reshape s c (fun h => rfl) (fun h u hu => hu) fun m y j hm => ?_
      by_cases hml : l = m
      · subst hml
        obtain ⟨rfl, rfl⟩ := Prod.mk.inj (Option.some.inj (hx.symm.trans hm))
        have hlt := (List.getElem?_eq_some_iff.mp hm).1
        exact ⟨n + 1, by simp [hlt]⟩
      · exact ⟨j, by rw [List.getElem?_set_ne hml]; exact hm⟩
    exact hcount.trans (spawn_onward (hl x n hx).attempt.map)

/-- A piece of work that calls no listener but those that ask nothing else. -/
theorem perform_onward (s : Session) {job : Job} (hasks : job.Asks P)
    (hrefresh : ∀ q, q.OfRefresh → P q)
    (hlistener : ∀ c executor k l, job = .effect c executor (.notify k l) →
      ∀ x n, (s.held? c).listeners[l]? = some (x, n) → (x.act c n).Asks P) :
    Onward P s (s.perform job) := by
  cases job with
  | resume id program => exact advance_onward id hasks
  | effect c executor e =>
    cases e with
    | log entry => exact .of_eq rfl rfl rfl
    | run k => exact spawn_onward (((Credential.requestToken_asks c).mono hrefresh).attempt.map)
    | hold k => cases executor <;> exact .of_eq rfl rfl rfl
    | due k => exact .of_eq rfl rfl rfl
    | notify k l => exact callListener_onward s c k l (hlistener c executor k l rfl)
    | answer caller outcome => exact answer_onward s caller outcome
  | launch c k => exact .cache s c .direct (.launch k)
  | process c k => exact .cache s c .direct (.process k)
  | listenerDone c k failure => exact .cache s c .direct (.listenerDone k failure)

theorem wake_onward (s : Session) (f : Waiting → Option (Procedure Ending)) :
    Onward P s (s.wake f) := by
  unfold wake
  split
  · exact .of_eq rfl rfl rfl
  · exact .refl

/-- A step does the next piece of work, or leaves all of it to be done. -/
theorem Step.onward (h : Step P s s') :
    (∃ job t, s.takeJob? = some (job, t) ∧ s' = t.perform job) ∨ Onward P s s' := by
  cases h with
  | work h => exact .inl ⟨_, _, h, rfl⟩
  | start hp => exact .inr (spawn_onward hp)
  | signal aborted => exact .inr (.of_eq rfl rfl rfl)
  | giveUp c id reason _ => exact .inr (.cache s c .direct (.abort id reason))
  | endOperation number outcome =>
    rw [endOperation_eq_wake]
    exact .inr (wake_onward s _)
  | release gate =>
    rw [release_eq_wake]
    exact .inr (wake_onward s _)
  | reclaim => exact .inr ⟨List.suffix_append _ _, .refl, fun c => .of_eq rfl⟩
  | world w h => exact .inr (.of_eq rfl h rfl)

theorem Job.Asks.anything (job : Job) : job.Asks fun _ => True := by
  cases job with
  | resume id program => exact Procedure.Asks.anything program
  | _ => trivial

theorem perform_onward_anything (s : Session) (job : Job) :
    Onward (fun _ => True) s (s.perform job) :=
  perform_onward s (Job.Asks.anything job) (fun _ _ => trivial)
    fun _ _ _ _ _ _ _ _ => Procedure.Asks.anything _

theorem Step.reliable (h : Step (fun _ => True) s s') (hs : s.store.Reliable) :
    s'.store.Reliable := by
  rcases h.onward with ⟨job, t, htake, rfl⟩ | honward
  · rw [← takeJob?_store htake] at hs
    exact hs.calls (perform_onward_anything t job).store
  · exact hs.calls honward.store

theorem Steps.reliable (h : Steps (fun _ => True) s s') (hs : s.store.Reliable) :
    s'.store.Reliable := by
  induction h with
  | refl => exact hs
  | tail _ hstep ih => exact hstep.reliable ih

theorem Step.carries (h : Step (fun _ => True) s s') (c : CredentialId) : Carries c s s' := by
  rcases h.onward with ⟨job, t, htake, rfl⟩ | honward
  · have hheld : t.held? c = s.held? c := takeJob?_held? htake c
    obtain ⟨huser, hlisteners, hfirst, hnews⟩ := (perform_onward_anything t job).held c
    rw [hheld] at huser hlisteners hfirst hnews
    exact ⟨huser, hlisteners, hfirst, hnews⟩
  · exact honward.held c

end Bearer.Session
