import Bearer.Proofs.Session.Twins

namespace Bearer

/-- The answer that a call is going to get, as the cache stands when the call comes. -/
def Session.Reason.OfCall (cache : Cache.State) : Session.Reason → Prop
  | .served t => cache.token = some t
  | .refresh k => k = cache.slot.getD cache.refreshes.length

/-- A call that takes any refresh and waits, waits for the one in the slot, which is the
next one if there is none. -/
theorem Cache.State.waits_for_slot (set : Cache.Settings) {s : Cache.State} {e : Cache.Event}
    {i : Cache.CallerId} (hlatest : s.SlotLatest) (hcaller : e.caller? = some i)
    (hforced : e.isForced = false) (hr : s.reply? e = none) (j : Cache.RefreshId) :
    (step set e s).1.waitersOf j =
      if j = s.slot.getD s.refreshes.length then s.waitersOf j ++ [i] else s.waitersOf j := by
  obtain ⟨k, hk, -, hwaiters⟩ := waits_for set hlatest hcaller hr
  have hslot : s.slot.getD s.refreshes.length = k := by
    cases ho : s.opens e with
    | none =>
      have hjoined : s.slot = some k := by simpa [ho] using hk
      rw [hjoined]
      rfl
    | some how =>
      have hown : k = s.refreshes.length := by simpa [ho] using hk
      rw [slot_of_opens hforced ho, hown]
      rfl
  rw [hslot]
  exact hwaiters j

namespace Session
variable {P : Query → Prop} {s s' : Session} {i : Cache.CallerId}

/-- How a thread goes on that has awaited its headers. -/
def tell (call : String) (outcome : Result Metadata) : Procedure Ending :=
  .done (.ok (.call call (outcome.map .metadata)))

/-- To look at a credential takes no waiting. -/
theorem spawn_lookAt {α : Type} (s : Session) (c : CredentialId) (f : Credential → Procedure α)
    (end_ : Result α → Ending) :
    s.spawn (end_ <$> (lookAt c >>= f).attempt) =
      advance s.born (end_ <$> (f (s.held? c).credential).attempt)
        { s with born := s.born + 1 } := rfl

section Programs
variable (s) (c : CredentialId) (hkind : ∀ a, (s.held? c).credential.kind ≠ .jwtAccess a)
  (call : String) (uri : Given String)
include hkind

theorem spawn_requestMetadata :
    s.spawn ((Ending.call call) <$>
        (Answer.metadata <$> Credential.requestMetadata c uri none).attempt) =
      advance s.born (.ask (.fetch c .direct none) fun outcome =>
        tell call ((s.held? c).credential.headersOf outcome)) { s with born := s.born + 1 } := by
  refine (spawn_lookAt s c _ _).trans ?_
  rcases howner : (s.held? c).credential with ⟨setup, kind⟩
  rw [howner] at hkind
  cases kind with
  | jwtAccess a => exact absurd rfl (hkind a)
  | _ =>
    refine congrArg (fun next => advance s.born (.ask (.fetch c .direct none) next) _) ?_
    funext outcome
    cases outcome <;> rfl

theorem spawn_requestMetadataAsync (executor : Executor) (throwing : Option Thrown) :
    s.spawn ((fun _ => Ending.nothing) <$>
        (Credential.requestMetadataAsync c call uri executor throwing).attempt) =
      advance s.born (.ask (.fetch c executor none) fun outcome =>
        announce c call throwing ((s.held? c).credential.headersOf outcome))
        { s with born := s.born + 1 } := by
  refine (spawn_lookAt s c _ _).trans ?_
  cases hk : (s.held? c).credential.kind with
  | jwtAccess a => exact absurd hk (hkind a)
  | _ =>
    dsimp only
    cases throwing <;> rfl

end Programs

theorem readFor_eq (s : Session) (cache : Cache.State) :
    ∃ offsets, (s.readFor cache).2 = { s with offsets } := by
  unfold readFor
  split
  · split
    · exact ⟨s.offsets, rfl⟩
    · unfold Session.read
      split
      · exact ⟨s.offsets, rfl⟩
      · exact ⟨_, rfl⟩
  · exact ⟨s.offsets, rfl⟩

/-- A thread is born that asks for a token: the clock is read, the thread waits, and the
cache takes a step. -/
theorem born_asking (s : Session) (c : CredentialId) (executor : Executor) :
    ∃ offsets first second, ∀ next : Result Token → Procedure Ending,
      advance s.born (.ask (.fetch c executor none) next) { s with born := s.born + 1 } =
        (({ s with born := s.born + 1, offsets } : Session).block s.born
          (.token c none fun r => next (givenToken r))).stepCache c executor
            (.fetch s.born (startOn executor) first second none) := by
  generalize ht : ({ s with born := s.born + 1 } : Session) = t
  obtain ⟨once, hfirst⟩ := readFor_eq t (t.held? c).cache
  obtain ⟨twice, hsecond⟩ := readFor_eq { t with offsets := once } (t.held? c).cache
  refine ⟨twice, (t.readFor (t.held? c).cache).1,
    (({ t with offsets := once } : Session).readFor (t.held? c).cache).1, fun next => ?_⟩
  rw [advance_fetch]
  dsimp only
  rw [hfirst]
  have hheld : ({ t with offsets := once } : Session).held? c = t.held? c := rfl
  rw [hheld, hsecond, ← ht]
  rfl

/-- What a thread stands aside from as long as it has no refresh. -/
theorem Whereabouts.acts {threads : List Thread} {inner agenda : List Job}
    (hw : Whereabouts i threads inner agenda s) (hp : StandsAt i none s)
    (h : Acts P (some i) s s') : Whereabouts i threads inner agenda s' ∧ StandsAt i none s' := by
  induction h with
  | refl => exact ⟨hw, hp⟩
  | tail _ hact ih =>
    obtain ⟨hw', hp'⟩ := ih
    rcases hw'.act hp' hact with h | ⟨c, k, executor, outcome, hk, -⟩
    · exact h
    · cases hk

/-- A thread that is only just born may be the bystander. -/
theorem Sound.beside (hs : s.Sound P none) (hborn : i < s.born)
    (hw : Whereabouts i [] [] [] s) : s.Sound P (some i) where
  threads t ht := by
    obtain ⟨hlt, hasks, -⟩ := hs.threads t ht
    refine ⟨hlt, fun _ => hasks nofun, fun hi => ?_⟩
    have hnone := List.filter_eq_nil_iff.mp hw.threads t ht
    exact absurd (Option.some.inj hi).symm (by simpa using hnone)
  jobs job hjob := ⟨(hs.jobs job hjob).1, fun _ => (hs.jobs job hjob).2 nofun⟩
  waiters := hs.waiters
  bystander id hid := Option.some.inj hid ▸ hborn
  history := hs.history

/-- A thread that waits for a token is in order whatever it will ask then, if it is the
bystander. -/
theorem Sound.wait (hs : s.Sound P (some i)) (c : CredentialId)
    (next : Result (Option Token) → Procedure Ending) :
    (s.block i (.token c none next)).Sound P (some i) := by
  refine ⟨fun t ht => ?_, hs.jobs, hs.waiters, hs.bystander, hs.history⟩
  rcases List.mem_append.mp ht with ht | ht
  · exact hs.threads t ht
  · obtain rfl := List.mem_singleton.mp ht
    exact ⟨hs.bystander i rfl, fun hi => absurd rfl hi, fun _ => ⟨c, next, rfl⟩⟩

theorem Whereabouts.wait {inner agenda : List Job} (hw : Whereabouts i [] inner agenda s)
    (w : Waiting) : Whereabouts i [⟨i, w⟩] inner agenda (s.block i w) := by
  obtain ⟨ht, hi, ha, hd, hk, hm⟩ := hw
  exact ⟨by simp [block, ht], hi, ha, hd, hk, hm⟩

/-- What the step of the cache makes of a thread that asks it for a token: the thread has
its answer, or it stands in a refresh. -/
theorem StandsAt.fetch (hs : s.Sound P (some i)) (hp : StandsAt i none s) {c : CredentialId}
    (hc : c < s.held.length) (executor : Executor) (how : Cache.Start) (first second : Double) :
    let e := Cache.Event.fetch i how first second none
    let cache := (s.held? c).cache
    let answers := Cache.answersTo i (Cache.step ⟨(s.held? c).credential.logging⟩ e cache).2
    (∃ t, cache.token = some t ∧ answers = [.ok (some t)] ∧
      StandsAt i none (s.stepCache c executor e)) ∨
    (answers = [] ∧
      StandsAt i (some (c, cache.slot.getD cache.refreshes.length))
        (s.stepCache c executor e)) := by
  intro e cache answers
  have hzero : ∀ k, (cache.waitersOf k).count i = 0 := fun k => hp c k
  have hanswers : answers = (cache.reply? e).toList := by
    simpa using Cache.State.answersTo_call ⟨(s.held? c).credential.logging⟩ cache e i rfl i
  by_cases hserves : ∃ t, cache.Serves second t
  · obtain ⟨t, ht⟩ := hserves
    have hr := Cache.State.reply_of_serves ht i how first none
    refine .inl ⟨t, ht.1, by rw [hanswers, hr]; rfl, ?_⟩
    refine hp.of_step (fun _ _ _ => Iff.rfl) (.inl rfl) fun k => ?_
    rw [Cache.State.waitersOf_replied _ rfl hr]
    exact hzero k
  · have hr : cache.reply? e = none := Cache.State.reply_of_not_serves hserves i how first none
    have hlatest : cache.SlotLatest := by
      obtain ⟨es, hes⟩ := hs.history c
      rw [show cache = _ from hes]
      exact Cache.State.slotLatest_after _ _ es
    refine .inr ⟨by rw [hanswers, hr]; rfl, ?_⟩
    refine hp.of_step (fun d j hd => ?_) (.inr hc) fun j => ?_
    · simp [Ne.symm hd]
    · rw [Cache.State.waits_for_slot _ hlatest rfl rfl hr j]
      by_cases hj : j = cache.slot.getD cache.refreshes.length
      · simp [hj, hzero]
      · simp [hj, Ne.symm hj, hzero]

/-- The step in which a call asks the cache, once its thread is there. -/
theorem ahead_of_fetch {call : String} (hs : s.Sound (Query.Spares call) (some i))
    (hw : Whereabouts i [] [] [] s) (hp : StandsAt i none s) {c : CredentialId}
    (hc : c < s.held.length) (hsilent : callbacks call s.trace = []) (owner : Credential)
    (hsetup : (s.held? c).credential.toSetup = owner.toSetup) (throwing : Option Thrown)
    (executor : Executor) (how : Cache.Start) (first second : Double) :
    ∃ reason : Reason, reason.OfCall (s.held? c).cache ∧
      (⟨i, c, owner, call, throwing, reason⟩ : Async).Ahead
        ((s.block i (.token c none fun r =>
          announce c call throwing (owner.headersOf (givenToken r)))).stepCache c executor
            (.fetch i how first second none)) := by
  have hwaits := hs.wait c fun r => announce c call throwing (owner.headersOf (givenToken r))
  have hwhere := (hw.wait (.token c none fun r =>
    announce c call throwing (owner.headersOf (givenToken r)))).cache c executor
      (.fetch i how first second none)
  have hsited (reason : Reason) : (⟨i, c, owner, call, throwing, reason⟩ : Async).Sited
      ((s.block i (.token c none fun r =>
        announce c call throwing (owner.headersOf (givenToken r)))).stepCache c executor
          (.fetch i how first second none)) := by
    refine ⟨hwaits.cache c executor ?_,
      by simpa [block, stepCache, modifyHeld, doFirst] using hc, ?_⟩
    · rintro id ⟨⟩
      exact hs.bystander i rfl
    · rw [held?_stepCache]
      split <;> exact hsetup
  rcases StandsAt.fetch hwaits hp hc executor how first second with
    ⟨t, ht, hanswers, hplace⟩ | ⟨hanswers, hplace⟩
  · rw [hanswers] at hwhere
    have hgives : ∀ cache, (Reason.served t).Gives cache (.ok t) := fun _ => rfl
    exact ⟨.served t, ht, hsited _, .answered (hgives _) hwhere hplace, hsilent⟩
  · rw [hanswers] at hwhere
    exact ⟨.refresh _, rfl, hsited _, .waiting rfl hwhere hplace, hsilent⟩

/-- A call with a callback is on its way once the cache has been asked. -/
theorem ahead_of_ask {call : String} (hs : s.Sound (Query.Spares call) none)
    {c : CredentialId} (hc : c < s.held.length) (hsilent : callbacks call s.trace = [])
    (executor : Executor) (throwing : Option Thrown) :
    ∃ reason : Reason, reason.OfCall (s.held? c).cache ∧
      (⟨s.born, c, (s.held? c).credential, call, throwing, reason⟩ : Async).Ahead
        (advance s.born (.ask (.fetch c executor none) fun outcome =>
          announce c call throwing ((s.held? c).credential.headersOf outcome))
          { s with born := s.born + 1 }) := by
  obtain ⟨offsets, first, second, hasked⟩ := born_asking s c executor
  have hacts (i : Option Cache.CallerId) :
      Acts (Query.Spares call) i s { s with born := s.born + 1, offsets } :=
    .head .birth (.single (.aside offsets ..))
  obtain ⟨hw, hp⟩ := hs.unborn (Nat.le_refl s.born)
  obtain ⟨hw', hp'⟩ := hw.acts hp (hacts (some s.born))
  rw [hasked]
  exact ahead_of_fetch ((hs.acts (hacts none)).beside (Nat.lt_succ_self s.born) hw') hw' hp' hc
    hsilent _ rfl throwing executor _ _ _

/-- Two calls that only differ in how they go on begin as twins. -/
theorem twins_of_ask (hs : s.Sound P none) {a : Async} (hid : a.id = s.born)
    (executor : Executor) (next next' : Result Token → Procedure Ending)
    (htale : a.tale = fun r => next' (givenToken r)) (told : Result Metadata → List Observation) :
    Twins a (fun r => next (givenToken r)) told
      (advance s.born (.ask (.fetch a.credential executor none) next)
        { s with born := s.born + 1 })
      (advance s.born (.ask (.fetch a.credential executor none) next')
        { s with born := s.born + 1 }) := by
  obtain ⟨offsets, first, second, hasked⟩ := born_asking s a.credential executor
  have hbefore : ∀ t ∈ s.threads, t.id ≠ a.id := by
    intro t ht
    rw [hid]
    exact Nat.ne_of_lt (hs.threads t ht).1
  have hwaiting : Twins a (fun r => next (givenToken r)) told _ _ :=
    .waiting { s with born := s.born + 1, offsets, threads := [] } hbefore
  rw [Async.double, Async.thread, htale, hid] at hwaiting
  rw [hasked, hasked]
  refine Twins.stepCache ?_ a.credential executor _
  simpa [behind, block] using hwaiting

end Session
end Bearer
