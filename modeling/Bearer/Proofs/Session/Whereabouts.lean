import Bearer.Proofs.Session.Runs

namespace Bearer

namespace Cache
variable {s : State} {e : Event} {c : CallerId}

/-- A caller that waits nowhere has no part in a step about others. -/
theorem State.aloof_step (set : Settings) (hparty : e.party? ≠ some c)
    (h : ∀ k, (s.waitersOf k).count c = 0) :
    answersTo c (step set e s).2 = [] ∧ ∀ k, ((step set e s).1.waitersOf k).count c = 0 := by
  have hcall : e.caller? ≠ some c := fun hc => hparty (party_of_caller hc)
  obtain ⟨hanswers, hwaits⟩ := silent_step set (not_waits_of_count h) hcall
  exact ⟨hanswers, fun k => count_of_not_waits hwaits k⟩

end Cache

namespace Session

def jobsOf (i : Cache.CallerId) (jobs : List Job) : List Job :=
  jobs.filter (fun job => job.party? = some i)

@[simp] theorem jobsOf_nil (i : Cache.CallerId) : jobsOf i [] = [] := rfl

@[simp] theorem jobsOf_append (i : Cache.CallerId) (jobs more : List Job) :
    jobsOf i (jobs ++ more) = jobsOf i jobs ++ jobsOf i more := List.filter_append ..

theorem jobsOf_cons_own {i : Cache.CallerId} {job : Job} (h : job.party? = some i)
    (jobs : List Job) : jobsOf i (job :: jobs) = job :: jobsOf i jobs :=
  List.filter_cons_of_pos (by simpa using h)

theorem jobsOf_cons_other {i : Cache.CallerId} {job : Job} (h : job.party? ≠ some i)
    (jobs : List Job) : jobsOf i (job :: jobs) = jobsOf i jobs :=
  List.filter_cons_of_neg (by simpa using h)

theorem jobsOf_eq_nil {i : Cache.CallerId} {jobs : List Job} :
    jobsOf i jobs = [] ↔ ∀ job ∈ jobs, job.party? ≠ some i := by
  simp [jobsOf]

/-- Of what a cache wants done, a thread's jobs are the answers to it. -/
theorem jobsOf_effects (i : Cache.CallerId) (c : CredentialId) (executor : Executor)
    (effects : List Cache.Effect) :
    jobsOf i (effects.map (.effect c executor)) =
      (Cache.answersTo i effects).map (fun r => .effect c executor (.answer i r)) := by
  induction effects with
  | nil => rfl
  | cons e effects ih =>
    rw [List.map_cons, Cache.answersTo_cons, List.map_append, ← ih]
    cases e with
    | answer caller outcome =>
      by_cases hi : caller = i
      · subst hi
        rw [jobsOf_cons_own rfl]
        simp [Cache.Effect.answer?]
      · rw [jobsOf_cons_other (by simpa [Job.party?] using hi)]
        simp [Cache.Effect.answer?, hi]
    | _ =>
      rw [jobsOf_cons_other (by simp [Job.party?])]
      rfl

variable (i : Cache.CallerId)

/-- Where a thread waits, and its jobs among what is done first and among what is done
next; there are none in the other queues. -/
structure Whereabouts (threads : List Thread) (inner agenda : List Job) (s : Session) : Prop where
  threads : s.threads.filter (fun t => t.id = i) = threads
  inner : jobsOf i s.inner = inner
  agenda : jobsOf i s.agenda = agenda
  deferred : jobsOf i s.deferred = []
  kept : jobsOf i s.kept = []
  timers : jobsOf i (s.timers.map Prod.snd) = []

/-- The refresh in which a thread stands, if there is one. -/
def StandsAt (place : Option (CredentialId × Cache.RefreshId)) (s : Session) : Prop :=
  ∀ c k, ((s.held? c).cache.waitersOf k).count i = if place = some (c, k) then 1 else 0

variable {i} {P : Query → Prop} {s s' : Session} {threads : List Thread}
  {inner agenda : List Job} {place : Option (CredentialId × Cache.RefreshId)}

theorem Whereabouts.put (h : Whereabouts i threads inner agenda s) {job : Job}
    (hjob : job.party? ≠ some i) (hput : s.Puts job s') :
    Whereabouts i threads inner agenda s' := by
  have hnone : jobsOf i [job] = [] := jobsOf_cons_other hjob []
  obtain ⟨hthreads, hinner, hagenda, hdeferred, hkept, htimers⟩ := h
  cases hput with
  | next => exact ⟨hthreads, hinner, by simp [doNext, hagenda, hnone], hdeferred, hkept, htimers⟩
  | later => exact ⟨hthreads, hinner, hagenda, by simp [doLater, hdeferred, hnone], hkept, htimers⟩
  | after => exact ⟨hthreads, hinner, hagenda, hdeferred, hkept, by simp [doAfter, htimers, hnone]⟩
  | kept => exact ⟨hthreads, hinner, hagenda, hdeferred, by simp [hkept, hnone], htimers⟩

theorem Whereabouts.take (h : Whereabouts i threads inner agenda s) {job : Job}
    (hjob : job.party? ≠ some i) (htake : s.Takes job s') :
    Whereabouts i threads inner agenda s' := by
  obtain ⟨hthreads, hinner, hagenda, hdeferred, hkept, htimers⟩ := h
  cases htake with
  | inner hs =>
    rw [hs, jobsOf_cons_other hjob] at hinner
    exact ⟨hthreads, hinner, hagenda, hdeferred, hkept, htimers⟩
  | agenda _ hs =>
    rw [hs, jobsOf_cons_other hjob] at hagenda
    exact ⟨hthreads, hinner, hagenda, hdeferred, hkept, htimers⟩
  | deferred hs =>
    rw [hs, jobsOf_cons_other hjob] at hdeferred
    exact ⟨hthreads, hinner, hagenda, hdeferred, hkept, htimers⟩
  | timer _ hrest =>
    refine ⟨hthreads, hinner, hagenda, hdeferred, hkept, jobsOf_eq_nil.mpr fun j hj => ?_⟩
    exact jobsOf_eq_nil.mp htimers j ((hrest.map Prod.snd).subset hj)

/-- A job of the thread comes from where its jobs are. -/
theorem Whereabouts.own (h : Whereabouts i threads inner agenda s) {job : Job}
    (hjob : job.party? = some i) (htake : s.Takes job s') :
    (∃ rest, inner = job :: rest ∧ Whereabouts i threads rest agenda s') ∨
    (∃ rest, agenda = job :: rest ∧ Whereabouts i threads inner rest s' ∧ s.inner = []) := by
  obtain ⟨hthreads, hinner, hagenda, hdeferred, hkept, htimers⟩ := h
  cases htake with
  | inner hs =>
    rw [hs, jobsOf_cons_own hjob] at hinner
    exact .inl ⟨_, hinner.symm, hthreads, rfl, hagenda, hdeferred, hkept, htimers⟩
  | agenda hi hs =>
    rw [hs, jobsOf_cons_own hjob] at hagenda
    exact .inr ⟨_, hagenda.symm, ⟨hthreads, hinner, rfl, hdeferred, hkept, htimers⟩, hi⟩
  | deferred hs =>
    rw [hs, jobsOf_cons_own hjob] at hdeferred
    cases hdeferred
  | timer hmem _ => exact absurd hjob (jobsOf_eq_nil.mp htimers job hmem)

/-- A step of a cache adds its answers to the thread's jobs. -/
theorem Whereabouts.cache (h : Whereabouts i threads inner agenda s) (c : CredentialId)
    (executor : Executor) (e : Cache.Event) :
    Whereabouts i threads
      ((Cache.answersTo i (Cache.step ⟨(s.held? c).credential.logging⟩ e (s.held? c).cache).2).map
        (fun r => .effect c executor (.answer i r)) ++ inner) agenda
      (s.stepCache c executor e) := by
  obtain ⟨hthreads, hinner, hagenda, hdeferred, hkept, htimers⟩ := h
  refine ⟨hthreads, ?_, hagenda, hdeferred, hkept, htimers⟩
  simp only [stepCache, doFirst, modifyHeld, jobsOf_append, jobsOf_effects, hinner]

theorem StandsAt.waitsOnce {c : CredentialId} {k : Cache.RefreshId}
    (h : StandsAt i (some (c, k)) s) : (s.held? c).cache.WaitsOnce i k := by
  intro j
  rw [h c j]
  grind

/-- Who stands in a refresh stands in one of a credential that there is. -/
theorem StandsAt.lt_length {c : CredentialId} {k : Cache.RefreshId}
    (h : StandsAt i (some (c, k)) s) : c < s.held.length := by
  refine Decidable.byContradiction fun hc => ?_
  have hone := h.waitsOnce k
  rw [held?, List.getD_eq_getElem?_getD, List.getElem?_eq_none (Nat.le_of_not_lt hc)] at hone
  simp [Cache.State.waitersOf, default] at hone

/-- After a step of one cache a thread stands where that cache and the others have it. -/
theorem StandsAt.of_step {place' : Option (CredentialId × Cache.RefreshId)}
    (h : StandsAt i place s) {c : CredentialId} {executor : Executor} {e : Cache.Event}
    (hsame : ∀ d k, d ≠ c → (place = some (d, k) ↔ place' = some (d, k)))
    (hlength : place = place' ∨ c < s.held.length)
    (hstep : ∀ k, ((Cache.step ⟨(s.held? c).credential.logging⟩ e
      (s.held? c).cache).1.waitersOf k).count i = if place' = some (c, k) then 1 else 0) :
    StandsAt i place' (s.stepCache c executor e) := by
  intro d k
  rw [held?_stepCache]
  by_cases hd : d = c
  · subst hd
    split
    · exact hstep k
    · next hlt =>
      rcases hlength with rfl | hlength
      · exact h d k
      · exact absurd ⟨rfl, hlength⟩ hlt
  · rw [if_neg fun hand => hd hand.1, h d k]
    simp only [hsame d k hd]

/-- No step about others takes a thread out of its refresh, but for the end of that. -/
theorem StandsAt.cache (h : StandsAt i place s) {c : CredentialId} (executor : Executor)
    {e : Cache.Event} (hparty : e.party? ≠ some i) :
    (Cache.answersTo i (Cache.step ⟨(s.held? c).credential.logging⟩ e (s.held? c).cache).2 = [] ∧
      StandsAt i place (s.stepCache c executor e)) ∨
    ∃ k outcome, place = some (c, k) ∧
      Cache.answersTo i (Cache.step ⟨(s.held? c).credential.logging⟩ e (s.held? c).cache).2 =
        [outcome.map some] ∧
      ((s.stepCache c executor e).held? c).cache.stage? k = some (.finished outcome) ∧
      StandsAt i none (s.stepCache c executor e) := by
  by_cases hplace : ∃ k, place = some (c, k)
  · obtain ⟨k, rfl⟩ := hplace
    have hlt := h.lt_length
    rcases h.waitsOnce.step ⟨(s.held? c).credential.logging⟩ hparty with
      ⟨hnone, honce⟩ | ⟨outcome, hone, hfinished, hgone⟩
    · refine .inl ⟨hnone, h.of_step (fun _ _ _ => Iff.rfl) (.inl rfl) fun j => ?_⟩
      rw [honce j]
      grind
    · refine .inr ⟨k, outcome, rfl, hone, ?_, h.of_step ?_ (.inr hlt) fun j => ?_⟩
      · rw [held?_stepCache, if_pos ⟨rfl, hlt⟩]
        exact hfinished
      · intro d j hd
        simp [Ne.symm hd]
      · exact Cache.State.count_of_not_waits hgone j
  · have hzero : ∀ k, ((s.held? c).cache.waitersOf k).count i = 0 := by
      intro k
      rw [h c k, if_neg fun hk => hplace ⟨k, hk⟩]
    obtain ⟨hnone, hstill⟩ :=
      Cache.State.aloof_step ⟨(s.held? c).credential.logging⟩ hparty hzero
    refine .inl ⟨hnone, h.of_step (fun _ _ _ => Iff.rfl) (.inl rfl) fun k => ?_⟩
    rw [hstill k, if_neg fun hk => hplace ⟨k, hk⟩]

theorem StandsAt.create (h : StandsAt i place s) (credential : Credential) : StandsAt i place
    { s with held := s.held ++ [{ credential, cache := { token := credential.token } }] } := by
  intro c k
  rw [held?_create]
  split
  · next hc =>
    have hnone : place ≠ some (c, k) := by
      rintro rfl
      exact Nat.ne_of_lt h.lt_length hc
    rw [if_neg hnone]
    rfl
  · exact h c k

theorem StandsAt.reshape (h : StandsAt i place s) (c : CredentialId) {f : Held → Held}
    (hf : ∀ held, (f held).cache = held.cache) : StandsAt i place (s.modifyHeld c f) := by
  intro d k
  rw [held?_modifyHeld]
  split
  · rw [hf]
    exact h d k
  · exact h d k

/-- What an act can mean for a bystander: nothing, or its refresh is over and the answer is
on its way. -/
theorem Whereabouts.act (hw : Whereabouts i threads inner agenda s) (hp : StandsAt i place s)
    (hact : Act P (some i) s s') :
    (Whereabouts i threads inner agenda s' ∧ StandsAt i place s') ∨
    ∃ c k executor outcome, place = some (c, k) ∧
      Whereabouts i threads (.effect c executor (.answer i (outcome.map some)) :: inner) agenda
        s' ∧
      (s'.held? c).cache.stage? k = some (.finished outcome) ∧ StandsAt i none s' := by
  have hother {party : Option Cache.CallerId} (h : Apart (some i) party) : party ≠ some i :=
    fun hparty => h i hparty rfl
  cases hact with
  | put job _ _ hapart h =>
    refine .inl ⟨hw.put (hother hapart) h, ?_⟩
    cases h <;> exact hp
  | take job hapart h =>
    refine .inl ⟨hw.take (hother hapart) h, ?_⟩
    cases h <;> exact hp
  | reclaim =>
    obtain ⟨hthreads, hinner, hagenda, hdeferred, hkept, htimers⟩ := hw
    exact .inl ⟨⟨hthreads, by simp [doFirst, hinner, hkept], hagenda, hdeferred, rfl, htimers⟩, hp⟩
  | block id w _ _ hapart =>
    have hid : id ≠ i := fun hid => hapart (hid ▸ rfl)
    refine .inl ⟨⟨?_, hw.inner, hw.agenda, hw.deferred, hw.kept, hw.timers⟩, hp⟩
    simp [block, hw.threads, hid]
  | forget id hapart =>
    have hid : id ≠ i := fun hid => hapart (hid ▸ rfl)
    refine .inl ⟨⟨?_, hw.inner, hw.agenda, hw.deferred, hw.kept, hw.timers⟩, hp⟩
    rw [← hw.threads, forget, List.filter_filter]
    refine List.filter_congr fun t _ => ?_
    by_cases ht : t.id = i <;> simp [ht, Ne.symm hid]
  | cache c executor e _ hapart =>
    have hnext := hw.cache c executor e
    rcases hp.cache executor (hother hapart) with
      ⟨hnone, hstands⟩ | ⟨k, outcome, hplace, hone, hfinished, hstands⟩
    · rw [hnone] at hnext
      exact .inl ⟨hnext, hstands⟩
    · rw [hone] at hnext
      exact .inr ⟨c, k, executor, outcome, hplace, hnext, hfinished, hstands⟩
  | create credential =>
    exact .inl ⟨⟨hw.threads, hw.inner, hw.agenda, hw.deferred, hw.kept, hw.timers⟩,
      hp.create credential⟩
  | reshape c f hf =>
    exact .inl ⟨⟨hw.threads, hw.inner, hw.agenda, hw.deferred, hw.kept, hw.timers⟩,
      hp.reshape c fun held => (hf held).1⟩
  | _ => exact .inl ⟨⟨hw.threads, hw.inner, hw.agenda, hw.deferred, hw.kept, hw.timers⟩, hp⟩

/-- Nothing is known of a thread that is not born. -/
theorem Sound.unborn (hs : s.Sound P none) (hi : s.born ≤ i) :
    Whereabouts i [] [] [] s ∧ StandsAt i none s := by
  have hjobs : jobsOf i s.jobs = [] := by
    refine jobsOf_eq_nil.mpr fun job hjob hparty => ?_
    exact absurd ((hs.jobs job hjob).1 i hparty) (Nat.not_lt.mpr hi)
  simp only [Session.jobs, jobsOf_append, List.append_eq_nil_iff] at hjobs
  obtain ⟨⟨⟨⟨hinner, hagenda⟩, hdeferred⟩, hkept⟩, htimers⟩ := hjobs
  refine ⟨⟨?_, hinner, hagenda, hdeferred, hkept, htimers⟩, fun c k => ?_⟩
  · refine List.filter_eq_nil_iff.mpr fun t ht hid => ?_
    exact absurd (hs.threads t ht).1 (by simpa using of_decide_eq_true hid ▸ hi)
  · refine List.count_eq_zero.mpr fun hmem => ?_
    exact absurd (hs.waiters c k i hmem) (Nat.not_lt.mpr hi)

/-- A thread that gets the token it waits for is to go on next. -/
theorem Whereabouts.answer {c : CredentialId} {signal : Option Signal}
    {next : Result (Option Token) → Procedure Ending}
    (h : Whereabouts i [⟨i, .token c signal next⟩] inner agenda s)
    (r : Result (Option Token)) :
    s.answer i r = (s.forget i).doNext (.resume i (next r)) ∧
    Whereabouts i [] inner (agenda ++ [.resume i (next r)]) (s.answer i r) := by
  have hfound : s.thread? i = some ⟨i, .token c signal next⟩ := by
    rw [thread?, ← List.head?_filter, h.threads]
    rfl
  have heq : s.answer i r = (s.forget i).doNext (.resume i (next r)) := by
    simp only [Session.answer, hfound]
  refine ⟨heq, ?_⟩
  rw [heq]
  refine ⟨?_, h.inner, ?_, h.deferred, h.kept, h.timers⟩
  · simp [doNext, forget]
  · have hown : jobsOf i [.resume i (next r)] = [.resume i (next r)] := jobsOf_cons_own rfl []
    simp [doNext, forget, h.agenda, hown]

end Session
end Bearer
