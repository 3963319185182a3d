import Bearer.Proofs.Cache.Serving
import Bearer.Proofs.Session.Acts

namespace Bearer

namespace Cache.State
variable {set : Settings} {s : State} {e : Event} {id : CallerId}

/-- Whoever waits after a step has waited before, or the step is about it. -/
theorem waits_or_party {k : RefreshId} (h : id ∈ (step set e s).1.waitersOf k) :
    id ∈ s.waitersOf k ∨ e.party? = some id := by
  by_cases hbefore : id ∈ s.waitersOf k
  · exact .inl hbefore
  · exact .inr (party_of_caller (joins set h hbefore).1)

/-- Whoever is answered by a step has waited, or the step is about it. -/
theorem answered_or_party {outcome : Result (Option Token)}
    (h : .answer id outcome ∈ (step set e s).2) :
    (∃ k, id ∈ s.waitersOf k) ∨ e.party? = some id := by
  by_cases hparty : e.party? = some id
  · exact .inr hparty
  · obtain ⟨-, hanswers⟩ := other_step set s e id hparty
    rw [← mem_answersTo, hanswers] at h
    cases hends : s.ends set e with
    | none => simp [hends] at h
    | some ended =>
      rw [hends] at h
      exact .inl ⟨ended.1, List.count_pos_iff.mp (Nat.pos_of_ne_zero (List.mem_replicate.mp h).1)⟩

end Cache.State

namespace Session

def jobs (s : Session) : List Job :=
  s.inner ++ s.agenda ++ s.deferred ++ s.kept ++ s.timers.map Prod.snd

theorem mem_jobs {s : Session} {job : Job} : job ∈ s.jobs ↔
    job ∈ s.inner ∨ job ∈ s.agenda ∨ job ∈ s.deferred ∨ job ∈ s.kept ∨
      job ∈ s.timers.map Prod.snd := by
  simp only [jobs, List.mem_append, or_assoc]

theorem Puts.mem_jobs {s s' : Session} {job j : Job} (h : s.Puts job s') (hj : j ∈ s'.jobs) :
    j = job ∨ j ∈ s.jobs := by
  rw [Session.mem_jobs] at hj ⊢
  cases h <;> simp [doNext, doLater, doAfter] at hj ⊢ <;> grind

theorem Takes.mem_jobs {s s' : Session} {job j : Job} (h : s.Takes job s') (hj : j ∈ s'.jobs) :
    j ∈ s.jobs := by
  rw [Session.mem_jobs] at hj ⊢
  cases h with
  | timer _ hrest =>
    have hkeep := (hrest.map Prod.snd).subset
    grind
  | _ => grind

theorem Takes.mem {s s' : Session} {job : Job} (h : s.Takes job s') : job ∈ s.jobs := by
  rw [Session.mem_jobs]
  cases h <;> simp_all

theorem held?_modifyHeld (s : Session) (c d : CredentialId) (f : Held → Held) :
    (s.modifyHeld c f).held? d =
      if d = c ∧ d < s.held.length then f (s.held? d) else s.held? d := by
  simp only [held?, modifyHeld, List.getD_eq_getElem?_getD, List.getElem?_modify]
  by_cases hd : d < s.held.length
  · by_cases hdc : c = d <;> simp [hd, hdc, eq_comm]
  · simp [hd]

theorem held?_stepCache (s : Session) (c d : CredentialId) (executor : Executor)
    (e : Cache.Event) :
    (s.stepCache c executor e).held? d =
      if d = c ∧ d < s.held.length then
        { s.held? d with
          cache := (Cache.step ⟨(s.held? d).credential.logging⟩ e (s.held? d).cache).1 }
      else s.held? d := by
  refine (held?_modifyHeld s c d _).trans ?_
  split
  · next h =>
    obtain ⟨rfl, -⟩ := h
    rfl
  · rfl

theorem held?_create (s : Session) (credential : Credential) (d : CredentialId) :
    ({ s with held := s.held ++ [{ credential, cache := { token := credential.token } }] } :
      Session).held? d =
      if d = s.held.length then { credential, cache := { token := credential.token } }
      else s.held? d := by
  simp only [held?, List.getD_eq_getElem?_getD, List.getElem?_append]
  grind

variable (P : Query → Prop) (i : Option Cache.CallerId)

/-- A session is in order, apart perhaps from what a bystander asks, who waits for tokens
and never under a signal. -/
structure Sound (s : Session) : Prop where
  threads : ∀ t ∈ s.threads, t.id < s.born ∧ (i ≠ some t.id → t.waiting.Asks P) ∧
    (i = some t.id → ∃ c next, t.waiting = .token c none next)
  jobs : ∀ job ∈ s.jobs, (∀ id ∈ job.party?, id < s.born) ∧ (Apart i job.party? → job.Asks P)
  waiters : ∀ c k, ∀ id ∈ (s.held? c).cache.waitersOf k, id < s.born
  bystander : ∀ id, i = some id → id < s.born
  history : ∀ c, ∃ es, (s.held? c).cache =
    (Cache.State.initial (s.held? c).credential.token).after
      ⟨(s.held? c).credential.logging⟩ es

variable {P i} {s s' : Session}

theorem Sound.put (hs : s.Sound P i) {job : Job} (hasks : Apart i job.party? → job.Asks P)
    (hborn : ∀ id ∈ job.party?, id < s.born) (h : s.Puts job s') : s'.Sound P i := by
  have hjobs : ∀ j ∈ s'.jobs,
      (∀ id ∈ j.party?, id < s.born) ∧ (Apart i j.party? → j.Asks P) := by
    intro j hj
    rcases h.mem_jobs hj with rfl | hj
    · exact ⟨hborn, hasks⟩
    · exact hs.jobs j hj
  cases h <;> exact ⟨hs.threads, hjobs, hs.waiters, hs.bystander, hs.history⟩

theorem Sound.take (hs : s.Sound P i) {job : Job} (h : s.Takes job s') : s'.Sound P i := by
  have hjobs := fun j hj => hs.jobs j (h.mem_jobs hj)
  cases h <;> exact ⟨hs.threads, hjobs, hs.waiters, hs.bystander, hs.history⟩

theorem Sound.forget (hs : s.Sound P i) (id : Cache.CallerId) : (s.forget id).Sound P i :=
  ⟨fun t ht => hs.threads t (List.mem_filter.mp ht).1, hs.jobs, hs.waiters, hs.bystander,
    hs.history⟩

theorem Sound.cache (hs : s.Sound P i) (c : CredentialId) (executor : Executor)
    {e : Cache.Event} (hborn : ∀ id ∈ e.party?, id < s.born) :
    (s.stepCache c executor e).Sound P i := by
  refine ⟨hs.threads, fun job hjob => ?_, fun d k id hid => ?_, hs.bystander, fun d => ?_⟩
  · have hcases : (∃ effect ∈ (Cache.step ⟨(s.held? c).credential.logging⟩ e
        (s.held? c).cache).2, job = .effect c executor effect) ∨ job ∈ s.jobs := by
      simp only [mem_jobs, stepCache, doFirst, modifyHeld, List.mem_append, List.mem_map]
        at hjob ⊢
      grind
    rcases hcases with ⟨effect, heffect, rfl⟩ | hjob
    · refine ⟨fun id hid => ?_, fun _ => trivial⟩
      cases effect with
      | answer caller outcome =>
        obtain rfl : caller = id := Option.some.inj hid
        rcases Cache.State.answered_or_party heffect with ⟨k, hk⟩ | hparty
        · exact hs.waiters c k caller hk
        · exact hborn caller hparty
      | _ => cases hid
    · exact hs.jobs job hjob
  · rw [held?_stepCache] at hid
    split at hid
    · rcases Cache.State.waits_or_party hid with hk | hparty
      · exact hs.waiters d k id hk
      · exact hborn id hparty
    · exact hs.waiters d k id hid
  · rw [held?_stepCache]
    obtain ⟨es, hes⟩ := hs.history d
    split
    · refine ⟨es ++ [e], ?_⟩
      rw [Cache.State.after_append, ← hes]
      rfl
    · exact ⟨es, hes⟩

theorem Sound.create (hs : s.Sound P i) (credential : Credential) :
    ({ s with held := s.held ++ [{ credential, cache := { token := credential.token } }] } :
      Session).Sound P i := by
  refine ⟨hs.threads, hs.jobs, fun d k id hid => ?_, hs.bystander, fun d => ?_⟩
  · rw [held?_create] at hid
    split at hid
    · cases hid
    · exact hs.waiters d k id hid
  · rw [held?_create]
    split
    · exact ⟨[], rfl⟩
    · exact hs.history d

theorem Sound.reshape (hs : s.Sound P i) (c : CredentialId) {f : Held → Held}
    (hf : ∀ h, (f h).cache = h.cache ∧ (f h).credential.lasting = h.credential.lasting) :
    (s.modifyHeld c f).Sound P i := by
  refine ⟨hs.threads, hs.jobs, fun d k id hid => ?_, hs.bystander, fun d => ?_⟩
  · rw [held?_modifyHeld] at hid
    split at hid
    · exact hs.waiters d k id ((hf _).1 ▸ hid)
    · exact hs.waiters d k id hid
  · rw [held?_modifyHeld]
    split
    · obtain ⟨hcache, hlasting⟩ := hf (s.held? d)
      rw [hcache, Credential.toSetup_of_lasting hlasting]
      exact hs.history d
    · exact hs.history d

theorem Sound.act (hs : s.Sound P i) (h : Act P i s s') : s'.Sound P i := by
  cases h with
  | aside | world | store | observe =>
    exact ⟨hs.threads, hs.jobs, hs.waiters, hs.bystander, hs.history⟩
  | birth =>
    refine ⟨fun t ht => ?_, fun job hjob => ?_, fun c k id hid => ?_, fun id hid => ?_,
      hs.history⟩
    · exact ⟨Nat.lt_succ_of_lt (hs.threads t ht).1, (hs.threads t ht).2⟩
    · exact ⟨fun id hid => Nat.lt_succ_of_lt ((hs.jobs job hjob).1 id hid),
        (hs.jobs job hjob).2⟩
    · exact Nat.lt_succ_of_lt (hs.waiters c k id hid)
    · exact Nat.lt_succ_of_lt (hs.bystander id hid)
  | put job hasks hborn _ h => exact hs.put (fun _ => hasks) hborn h
  | take job _ h => exact hs.take h
  | reclaim =>
    refine ⟨hs.threads, fun job hjob => hs.jobs job ?_, hs.waiters, hs.bystander, hs.history⟩
    rw [mem_jobs] at hjob ⊢
    simp only [doFirst, List.mem_append] at hjob
    grind
  | block id w hasks hborn hapart =>
    refine ⟨fun t ht => ?_, hs.jobs, hs.waiters, hs.bystander, hs.history⟩
    rcases List.mem_append.mp ht with ht | ht
    · exact hs.threads t ht
    · obtain rfl := List.mem_singleton.mp ht
      exact ⟨hborn, fun _ => hasks, fun hi => absurd hi hapart⟩
  | forget id _ => exact hs.forget id
  | cache c executor e hborn _ => exact hs.cache c executor hborn
  | create credential => exact hs.create credential
  | reshape c f hf => exact hs.reshape c hf

theorem Sound.acts (hs : s.Sound P i) (h : Acts P i s s') : s'.Sound P i := by
  induction h with
  | refl => exact hs
  | tail _ hact ih => exact ih.act hact

/-- What an act makes of one credential: it stays what it was, and its cache goes on. -/
theorem Act.held (h : Act P i s s') {c : CredentialId} (hc : c < s.held.length) :
    c < s'.held.length ∧
    (s'.held? c).credential.lasting = (s.held? c).credential.lasting ∧
    ∃ es, (s'.held? c).cache =
      (s.held? c).cache.after ⟨(s.held? c).credential.logging⟩ es := by
  cases h with
  | put job _ _ _ h => cases h <;> exact ⟨hc, rfl, [], rfl⟩
  | take job _ h => cases h <;> exact ⟨hc, rfl, [], rfl⟩
  | cache d executor e _ _ =>
    refine ⟨by simpa [stepCache, modifyHeld, doFirst] using hc, ?_, ?_⟩
    · rw [held?_stepCache]
      split <;> rfl
    · rw [held?_stepCache]
      split
      · exact ⟨[e], rfl⟩
      · exact ⟨[], rfl⟩
  | create credential =>
    refine ⟨by simpa using Nat.lt_succ_of_lt hc, ?_, [], ?_⟩ <;>
      rw [held?_create, if_neg (Nat.ne_of_lt hc)]
    rfl
  | reshape d f hf =>
    refine ⟨by simpa [modifyHeld] using hc, ?_, [], ?_⟩
    · rw [held?_modifyHeld]
      split
      · exact (hf _).2
      · rfl
    · rw [held?_modifyHeld]
      split
      · exact (hf _).1
      · rfl
  | _ => exact ⟨hc, rfl, [], rfl⟩

theorem Acts.lasting (h : Acts P i s s') {c : CredentialId} (hc : c < s.held.length) :
    c < s'.held.length ∧ (s'.held? c).credential.lasting = (s.held? c).credential.lasting := by
  induction h with
  | refl => exact ⟨hc, rfl⟩
  | tail _ hact ih =>
    obtain ⟨hc', hlasting, -⟩ := hact.held ih.1
    exact ⟨hc', hlasting.trans ih.2⟩

theorem sound_session (w : World) (wraps : Bool) : (w.session wraps).Sound P none where
  threads := nofun
  jobs _ hjob := absurd hjob List.not_mem_nil
  waiters := nofun
  bystander := nofun
  history := fun _ => ⟨[], rfl⟩

end Session
end Bearer
