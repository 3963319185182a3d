import Bearer.Proofs.Cache.Contents
import Bearer.Proofs.Session.Alone
import Bearer.Proofs.Session.Inner

namespace Bearer.Session

variable {i j : Cache.CallerId} {s s' : Session} {job : Job}

/-- What programs and callers have to be like in some circumstances, and the tokens of the
caches. -/
structure Rules where
  going : Procedure Ending → Prop
  waits : CredentialId → Option Signal → (Result (Option Token) → Procedure Ending) → Prop
  token : CredentialId → Token → Prop

/-- Nothing is left of a thread. -/
structure Idle (i : Cache.CallerId) (s : Session) : Prop where
  threads : s.threads.filter (fun t => t.id = i) = []
  jobs : jobsOf i s.jobs = []
  stands : StandsAt i none s

/-- What a caller of a cache may be given: a token of that cache, or the failure of a refresh
that is over, unless the caller has given up. -/
def Given (rules : Rules) (s : Session) (c : CredentialId) (signal : Option Signal) :
    Result (Option Token) → Prop
  | .ok (some t) => rules.token c t
  | .ok none => True
  | .error e => signal = none → ∃ k, (s.held? c).cache.stage? k = some (.finished (.error e))

/-- Where a thread is. -/
inductive Position (rules : Rules) (i : Cache.CallerId) (s : Session) : Prop
  | idle (h : Idle i s)
  | going {p : Procedure Ending} (hp : rules.going p)
      (threads : s.threads.filter (fun t => t.id = i) = [])
      (jobs : jobsOf i s.jobs = [.resume i p]) (stands : StandsAt i none s)
  | waiting {c : CredentialId} {k : Cache.RefreshId} {signal : Option Signal}
      {next : Result (Option Token) → Procedure Ending} (hnext : rules.waits c signal next)
      (threads : s.threads.filter (fun t => t.id = i) = [⟨i, .token c signal next⟩])
      (jobs : jobsOf i s.jobs = []) (stands : StandsAt i (some (c, k)) s)
  | answered {c : CredentialId} {executor : Executor} {signal : Option Signal}
      {next : Result (Option Token) → Procedure Ending} {r : Result (Option Token)}
      (hnext : rules.waits c signal next) (hgiven : Given rules s c signal r)
      (threads : s.threads.filter (fun t => t.id = i) = [⟨i, .token c signal next⟩])
      (jobs : jobsOf i s.jobs = [.effect c executor (.answer i r)]) (stands : StandsAt i none s)

/-- Every thread is somewhere, and the unborn ones are nowhere. -/
structure Everyone (rules : Rules) (s : Session) : Prop where
  position : ∀ i, Position rules i s
  unborn : ∀ i, s.born ≤ i → Idle i s

/-- A change that a thread has no part in. -/
structure Spares (i : Cache.CallerId) (s s' : Session) : Prop where
  threads : s'.threads.filter (fun t => t.id = i) = s.threads.filter (fun t => t.id = i)
  jobs : (jobsOf i s'.jobs).Perm (jobsOf i s.jobs)
  stands : ∀ place, StandsAt i place s → StandsAt i place s'
  finished : ∀ c k outcome, (s.held? c).cache.stage? k = some (.finished outcome) →
    (s'.held? c).cache.stage? k = some (.finished outcome)

theorem Spares.of_held (hheld : s'.held = s.held)
    (hthreads : s'.threads.filter (fun t => t.id = i) = s.threads.filter (fun t => t.id = i))
    (hjobs : (jobsOf i s'.jobs).Perm (jobsOf i s.jobs)) : Spares i s s' := by
  have hsame : ∀ c, s'.held? c = s.held? c := fun c => by rw [held?, held?, hheld]
  refine ⟨hthreads, hjobs, fun place h c k => ?_, fun c k outcome h => ?_⟩
  · rw [hsame]
    exact h c k
  · rw [hsame]
    exact h

theorem Spares.trans {s'' : Session} (h : Spares i s s') (h' : Spares i s' s'') :
    Spares i s s'' where
  threads := h'.threads.trans h.threads
  jobs := h'.jobs.trans h.jobs
  stands place hs := h'.stands place (h.stands place hs)
  finished c k outcome hk := h'.finished c k outcome (h.finished c k outcome hk)

theorem Idle.spared (h : Idle i s) (hspares : Spares i s s') : Idle i s' where
  threads := hspares.threads.trans h.threads
  jobs := List.perm_nil.mp (h.jobs ▸ hspares.jobs)
  stands := hspares.stands none h.stands

theorem Given.spared {rules : Rules} {c : CredentialId} {signal : Option Signal}
    {r : Result (Option Token)} (h : Given rules s c signal r) (hspares : Spares i s s') :
    Given rules s' c signal r := by
  rcases r with e | - | t
  · intro hsignal
    obtain ⟨k, hk⟩ := h hsignal
    exact ⟨k, hspares.finished c k _ hk⟩
  · trivial
  · exact h

theorem Position.spared {rules : Rules} (h : Position rules i s) (hspares : Spares i s s') :
    Position rules i s' := by
  have hthreads' := hspares.threads
  have hjobs' := hspares.jobs
  have hstands' := hspares.stands
  cases h with
  | idle h => exact .idle (h.spared hspares)
  | going hp hthreads hjobs hstands =>
    rw [hjobs, List.perm_singleton] at hjobs'
    exact .going hp (hthreads'.trans hthreads) hjobs' (hstands' _ hstands)
  | waiting hnext hthreads hjobs hstands =>
    rw [hjobs, List.perm_nil] at hjobs'
    exact .waiting hnext (hthreads'.trans hthreads) hjobs' (hstands' _ hstands)
  | answered hnext hgiven hthreads hjobs hstands =>
    rw [hjobs, List.perm_singleton] at hjobs'
    exact .answered hnext (hgiven.spared hspares) (hthreads'.trans hthreads) hjobs'
      (hstands' _ hstands)

/-- Whoever waits for a refresh has nothing else to do. -/
theorem Position.waiting_of_mem {rules : Rules} (h : Position rules i s) {c : CredentialId}
    {j : Cache.RefreshId} (hmem : i ∈ (s.held? c).cache.waitersOf j) :
    ∃ signal next, rules.waits c signal next ∧
      Whereabouts i [⟨i, .token c signal next⟩] [] [] s ∧ StandsAt i (some (c, j)) s := by
  have hcount := List.count_pos_iff.mpr hmem
  have hnowhere (hstands : StandsAt i none s) : False := by
    rw [hstands c j] at hcount
    exact absurd hcount (Nat.lt_irrefl 0)
  cases h with
  | idle h => exact (hnowhere h.stands).elim
  | going _ _ _ hstands | answered _ _ _ _ hstands => exact (hnowhere hstands).elim
  | @waiting b k signal next hnext hthreads hjobs hstands =>
    have hplace : some (b, k) = some (c, j) := by
      by_contra hother
      rw [hstands c j, if_neg hother] at hcount
      exact absurd hcount (Nat.lt_irrefl 0)
    cases hplace
    have hnone := jobsOf_eq_nil.mp hjobs
    refine ⟨signal, next, hnext, ⟨hthreads, ?_, ?_, ?_, ?_, ?_⟩, hstands⟩ <;>
      exact jobsOf_eq_nil.mpr fun job hjob => hnone job (mem_jobs.mpr (by tauto))

/-- In other circumstances more may be expected, if that is so of all there is. -/
theorem Position.mono {rules rules' : Rules} (h : Position rules i s)
    (hgoing : ∀ p, rules.going p → rules'.going p)
    (hwaits : ∀ c signal next, rules.waits c signal next → rules'.waits c signal next)
    (htoken : ∀ c t, rules.token c t → rules'.token c t) : Position rules' i s := by
  cases h with
  | idle h => exact .idle h
  | going hp hthreads hjobs hstands => exact .going (hgoing _ hp) hthreads hjobs hstands
  | waiting hnext hthreads hjobs hstands =>
    exact .waiting (hwaits _ _ _ hnext) hthreads hjobs hstands
  | @answered c executor signal next r hnext hgiven hthreads hjobs hstands =>
    refine .answered (hwaits _ _ _ hnext) ?_ hthreads hjobs hstands
    rcases r with e | - | t
    · exact hgiven
    · trivial
    · exact htoken _ _ hgiven

theorem spares_put (hput : s.Puts job s') (hjob : job.party? ≠ some i) : Spares i s s' := by
  have hjobs : (jobsOf i s'.jobs).Perm (jobsOf i s.jobs) := by
    have hperm := hput.jobs_perm.filter (fun job => job.party? = some i)
    rwa [List.filter_cons_of_neg (by simpa using hjob)] at hperm
  cases hput <;> exact .of_held rfl rfl hjobs

theorem spares_take (htake : s.takeJob? = some (job, s')) (hjob : job.party? ≠ some i) :
    Spares i s s' := by
  have hperm := (takeJob?_perm htake).filter (fun job => job.party? = some i)
  rw [List.filter_cons_of_neg (by simpa using hjob)] at hperm
  have hthreads : s'.threads = s.threads := by
    cases takes_of_takeJob htake <;> rfl
  exact .of_held (takeJob?_held htake) (by rw [hthreads]) hperm.symm

theorem spares_block (w : Waiting) (hij : j ≠ i) : Spares i s (s.block j w) :=
  .of_held rfl (by simp [block, hij]) .rfl

theorem spares_forget (hij : j ≠ i) : Spares i s (s.forget j) := by
  refine .of_held rfl ?_ .rfl
  rw [forget, List.filter_filter]
  refine List.filter_congr fun t _ => ?_
  by_cases ht : t.id = i <;> simp [ht, Ne.symm hij]

theorem spares_reclaim : Spares i s ({ s with kept := [] }.doFirst s.kept) := by
  refine .of_held rfl rfl (List.Perm.filter _ ?_)
  have hperm : (s.kept ++ (s.inner ++ s.agenda ++ s.deferred) ++ s.timers.map Prod.snd).Perm
      (s.inner ++ s.agenda ++ s.deferred ++ s.kept ++ s.timers.map Prod.snd) :=
    List.perm_append_comm.append_right _
  simpa only [jobs, doFirst, List.append_assoc, List.append_nil, List.nil_append] using hperm

theorem spares_create (credential : Credential) :
    Spares i s
      { s with held := s.held ++ [{ credential, cache := { token := credential.token } }] } := by
  refine ⟨rfl, .rfl, fun place h c k => ?_, fun c k outcome h => ?_⟩
  · rw [held?_create]
    split
    · next hc =>
      have hnone : place ≠ some (c, k) := by
        rintro rfl
        exact Nat.ne_of_lt h.lt_length hc
      rw [if_neg hnone]
      rfl
    · exact h c k
  · rw [held?_create]
    split
    · next hc =>
      rw [held?_eq_default (Nat.not_lt.mpr (Nat.le_of_eq hc.symm))] at h
      cases h
    · exact h

theorem spares_reshape (c : CredentialId) {f : Held → Held} (hf : ∀ h, (f h).cache = h.cache) :
    Spares i s (s.modifyHeld c f) := by
  have hsame : ∀ d, ((s.modifyHeld c f).held? d).cache = (s.held? d).cache := by
    intro d
    rw [held?_modifyHeld]
    split
    · exact hf _
    · rfl
  refine ⟨rfl, .rfl, fun place h d k => ?_, fun d k outcome h => ?_⟩
  · rw [hsame]
    exact h d k
  · rw [hsame]
    exact h

section Cache

variable {rules : Rules} (c : CredentialId) (executor : Executor) {e : Cache.Event}

theorem jobsOf_stepCache : jobsOf i (s.stepCache c executor e).jobs =
    (Cache.answersTo i (Cache.step ⟨(s.held? c).credential.logging⟩ e (s.held? c).cache).2).map
      (fun r => .effect c executor (.answer i r)) ++ jobsOf i s.jobs := by
  rw [stepCache_jobs, jobsOf_append, jobsOf_effects]

theorem finished_stepCache {d : CredentialId} {k : Cache.RefreshId} {outcome : Result Token}
    (h : (s.held? d).cache.stage? k = some (.finished outcome)) :
    ((s.stepCache c executor e).held? d).cache.stage? k = some (.finished outcome) := by
  rw [held?_stepCache]
  split
  · next hd =>
    obtain ⟨rfl, -⟩ := hd
    exact Cache.State.finished_step _ _ e k outcome h
  · exact h

theorem Idle.stepCache (h : Idle i s) (hparty : e.party? ≠ some i) :
    Idle i (s.stepCache c executor e) := by
  rcases h.stands.cache executor hparty with ⟨hnone, hstands⟩ | ⟨k, outcome, hplace, -⟩
  · refine ⟨h.threads, ?_, hstands⟩
    rw [jobsOf_stepCache, hnone, h.jobs]
    rfl
  · cases hplace

/-- The tokens with which refreshes are over are such as the rules say. -/
def Lawful (rules : Rules) (s : Session) (c : CredentialId) : Prop :=
  ∀ k t, (s.held? c).cache.stage? k = some (.finished (.ok t)) → rules.token c t

theorem Position.stepCache (h : Position rules i s) (hparty : e.party? ≠ some i)
    (hlawful : Lawful rules (s.stepCache c executor e) c) :
    Position rules i (s.stepCache c executor e) := by
  have hquiet (hstands : StandsAt i none s) :
      jobsOf i (s.stepCache c executor e).jobs = jobsOf i s.jobs ∧
        StandsAt i none (s.stepCache c executor e) := by
    rcases hstands.cache executor hparty with ⟨hnone, hstands'⟩ | ⟨k, outcome, hplace, -⟩
    · refine ⟨?_, hstands'⟩
      rw [jobsOf_stepCache, hnone]
      rfl
    · cases hplace
  cases h with
  | idle h => exact .idle (h.stepCache c executor hparty)
  | going hp hthreads hjobs hstands =>
    obtain ⟨hjobs', hstands'⟩ := hquiet hstands
    exact .going hp hthreads (hjobs'.trans hjobs) hstands'
  | answered hnext hgiven hthreads hjobs hstands =>
    obtain ⟨hjobs', hstands'⟩ := hquiet hstands
    refine .answered hnext ?_ hthreads (hjobs'.trans hjobs) hstands'
    rename_i r
    rcases r with e' | - | t
    · intro hsignal
      obtain ⟨k, hk⟩ := hgiven hsignal
      exact ⟨k, finished_stepCache c executor hk⟩
    · trivial
    · exact hgiven
  | @waiting d k₀ signal next hnext hthreads hjobs hstands =>
    rcases hstands.cache executor hparty with
      ⟨hnone, hstands'⟩ | ⟨k, outcome, hplace, hone, hfinished, hstands'⟩
    · refine .waiting hnext hthreads ?_ hstands'
      rw [jobsOf_stepCache, hnone, hjobs]
      rfl
    · obtain ⟨rfl, rfl⟩ : c = d ∧ k = k₀ := by simpa [eq_comm] using hplace
      have hjobs' : jobsOf i (s.stepCache c executor e).jobs =
          [.effect c executor (.answer i (outcome.map some))] := by
        rw [jobsOf_stepCache, hone, hjobs]
        rfl
      refine .answered hnext ?_ hthreads hjobs' hstands'
      cases outcome with
      | error failure => exact fun _ => ⟨k, hfinished⟩
      | ok t => exact hlawful k t hfinished

theorem Given.stepCache {d : CredentialId} {signal : Option Signal} {r : Result (Option Token)}
    (h : Given rules s d signal r) : Given rules (s.stepCache c executor e) d signal r := by
  rcases r with e' | - | t
  · intro hsignal
    obtain ⟨k, hk⟩ := h hsignal
    exact ⟨k, finished_stepCache c executor hk⟩
  · trivial
  · exact h

/-- A thread that makes a call waits, or has its answer on the way. -/
theorem position_call (h : Idle i s) (hc : c < s.held.length)
    (hlatest : (s.held? c).cache.SlotLatest) (hcall : e.caller? = some i)
    {signal : Option Signal} {next : Result (Option Token) → Procedure Ending}
    (hnext : rules.waits c signal next)
    (hreply : ∀ r, (s.held? c).cache.reply? e = some r → Given rules s c signal r) :
    Position rules i ((s.block i (.token c signal next)).stepCache c executor e) := by
  have hthreads : (s.block i (.token c signal next)).threads.filter (fun t => t.id = i) =
      [⟨i, .token c signal next⟩] := by
    simp [block, h.threads]
  have hzero : ∀ k, ((s.held? c).cache.waitersOf k).count i = 0 := fun k => h.stands c k
  have hstands : StandsAt i none (s.block i (.token c signal next)) := h.stands
  have hjobs : jobsOf i ((s.block i (.token c signal next)).stepCache c executor e).jobs =
      ((s.held? c).cache.reply? e).toList.map (fun r => .effect c executor (.answer i r)) := by
    have hanswers := Cache.State.answersTo_call ⟨(s.held? c).credential.logging⟩
      (s.held? c).cache e i hcall i
    rw [if_pos rfl] at hanswers
    have hnothing : jobsOf i (s.block i (.token c signal next)).jobs = [] := h.jobs
    rw [jobsOf_stepCache, hnothing, List.append_nil, ← hanswers]
    rfl
  cases hr : (s.held? c).cache.reply? e with
  | some r =>
    rw [hr] at hjobs
    have hgiven : Given rules (s.block i (.token c signal next)) c signal r := hreply r hr
    refine .answered hnext (hgiven.stepCache c executor) hthreads hjobs ?_
    refine hstands.of_step (fun _ _ _ => Iff.rfl) (.inl rfl) fun k => ?_
    have hsame := Cache.State.waitersOf_replied ⟨(s.held? c).credential.logging⟩ hcall hr k
    rw [← hzero k, ← hsame]
    rfl
  | none =>
    rw [hr] at hjobs
    obtain ⟨k, -, -, hwaiters⟩ := Cache.State.waits_for ⟨(s.held? c).credential.logging⟩
      hlatest hcall hr
    have hplace : StandsAt i (some (c, k))
        ((s.block i (.token c signal next)).stepCache c executor e) := by
      refine hstands.of_step (fun d j hd => ?_) (.inr hc) fun j => ?_
      · simp [Ne.symm hd]
      · have hcount := congrArg (List.count i) (hwaiters j)
        refine hcount.trans ?_
        by_cases hj : j = k
        · simp [hj, hzero]
        · simp [hj, Ne.symm hj, hzero]
    exact .waiting hnext hthreads hjobs hplace

theorem count_abort (reason : Thrown) (k : Cache.RefreshId) :
    ((Cache.step ⟨(s.held? c).credential.logging⟩ (.abort i reason)
      (s.held? c).cache).1.waitersOf k).count i = 0 := by
  rw [Cache.State.waitersOf_abort]
  exact List.count_eq_zero.mpr (by simp)

/-- Who gives up while it waits for a cache is told so, and waits no more. -/
theorem StandsAt.abort_waiting {k : Cache.RefreshId} (h : StandsAt i (some (c, k)) s)
    (reason : Thrown) :
    Cache.answersTo i (Cache.step ⟨(s.held? c).credential.logging⟩ (.abort i reason)
      (s.held? c).cache).2 = [Cache.denial reason] ∧
      StandsAt i none (s.stepCache c executor (.abort i reason)) := by
  have hwaits : (s.held? c).cache.waits i = true := by
    refine (Cache.State.waits_iff _ i).mpr ⟨k, List.count_pos_iff.mp ?_⟩
    rw [h.waitsOnce k, if_pos rfl]
    exact Nat.one_pos
  refine ⟨?_, h.of_step (fun d j hd => ?_) (.inr h.lt_length) fun j => ?_⟩
  · rw [Cache.State.answersTo_abort, if_pos ⟨rfl, hwaits⟩]
  · simp [Ne.symm hd]
  · rw [count_abort]
    rfl

/-- Who gives up without waiting for anything is told nothing. -/
theorem StandsAt.abort_idle (h : StandsAt i none s) (reason : Thrown) :
    Cache.answersTo i (Cache.step ⟨(s.held? c).credential.logging⟩ (.abort i reason)
      (s.held? c).cache).2 = [] ∧
      StandsAt i none (s.stepCache c executor (.abort i reason)) := by
  have hidle : (s.held? c).cache.waits i = false :=
    Cache.State.not_waits_of_count fun k => h c k
  refine ⟨?_, h.of_step (fun _ _ _ => Iff.rfl) (.inl rfl) fun j => ?_⟩
  · rw [Cache.State.answersTo_abort, if_neg (by simp [hidle])]
  · rw [count_abort]
    rfl

/-- A caller who gives up under a signal is turned away, if it still waits. -/
theorem position_abort {name : Signal} {next : Result (Option Token) → Procedure Ending}
    (h : Position rules i s) (ht : ⟨i, .token c (some name) next⟩ ∈ s.threads) (reason : Thrown) :
    Position rules i (s.stepCache c executor (.abort i reason)) := by
  have hthread : ⟨i, .token c (some name) next⟩ ∈ s.threads.filter (fun t => t.id = i) :=
    List.mem_filter.mpr ⟨ht, by simp⟩
  cases h with
  | idle h =>
    rw [h.threads] at hthread
    cases hthread
  | going hp hthreads hjobs hstands =>
    rw [hthreads] at hthread
    cases hthread
  | @waiting d k signal next' hnext hthreads hjobs hstands =>
    rw [hthreads, List.mem_singleton] at hthread
    cases hthread
    obtain ⟨hanswers, hstands'⟩ := hstands.abort_waiting c executor reason
    have hjobs' : jobsOf i (s.stepCache c executor (.abort i reason)).jobs =
        [.effect c executor (.answer i (Cache.denial reason))] := by
      rw [jobsOf_stepCache, hanswers, hjobs]
      rfl
    have hgiven : Given rules (s.stepCache c executor (.abort i reason)) c (some name)
        (Cache.denial reason) := fun hnone => by cases hnone
    exact .answered hnext hgiven hthreads hjobs' hstands'
  | @answered d executor' signal next' r hnext hgiven hthreads hjobs hstands =>
    rw [hthreads, List.mem_singleton] at hthread
    cases hthread
    obtain ⟨hanswers, hstands'⟩ := hstands.abort_idle c executor reason
    have hjobs' : jobsOf i (s.stepCache c executor (.abort i reason)).jobs =
        [.effect c executor' (.answer i r)] := by
      rw [jobsOf_stepCache, hanswers, hjobs]
      rfl
    exact .answered hnext (hgiven.stepCache c executor) hthreads hjobs' hstands'

end Cache

theorem mem_jobsOf_take (htake : s.takeJob? = some (job, s')) (hparty : job.party? = some i) :
    job ∈ jobsOf i s.jobs :=
  List.mem_filter.mpr ⟨(takes_of_takeJob htake).mem, by simpa using hparty⟩

theorem jobsOf_take {only : Job} (htake : s.takeJob? = some (job, s'))
    (hparty : job.party? = some i) (hjobs : jobsOf i s.jobs = [only]) : jobsOf i s'.jobs = [] := by
  have hperm := (takeJob?_perm htake).filter (fun job => job.party? = some i)
  rw [List.filter_cons_of_pos (by simpa using hparty)] at hperm
  rw [jobsOf] at hjobs
  rw [hjobs] at hperm
  exact List.length_eq_zero_iff.mp (Nat.succ.inj hperm.length_eq).symm

/-- Work that a thread has is taken from it. -/
theorem idle_of_resume {rules : Rules} {p : Procedure Ending} (h : Position rules i s)
    (htake : s.takeJob? = some (.resume i p, s')) : Idle i s' ∧ rules.going p := by
  have hmem : Job.resume i p ∈ jobsOf i s.jobs := mem_jobsOf_take htake rfl
  cases h with
  | idle h =>
    rw [h.jobs] at hmem
    cases hmem
  | waiting hnext hthreads hjobs hstands =>
    rw [hjobs] at hmem
    cases hmem
  | answered hnext hgiven hthreads hjobs hstands =>
    rw [hjobs, List.mem_singleton] at hmem
    cases hmem
  | going hp hthreads hjobs hstands =>
    rw [hjobs, List.mem_singleton] at hmem
    cases hmem
    have hjobs' := jobsOf_take htake rfl hjobs
    have hheld := takeJob?_held htake
    refine ⟨⟨?_, hjobs', fun c k => ?_⟩, hp⟩
    · cases takes_of_takeJob htake <;> exact hthreads
    · rw [held?, hheld]
      exact hstands c k

theorem position_put {rules : Rules} {p : Procedure Ending} (h : Idle i s)
    (hput : s.Puts (.resume i p) s') (hp : rules.going p) : Position rules i s' := by
  have hperm := hput.jobs_perm.filter (fun job => job.party? = some i)
  rw [List.filter_cons_of_pos (by simp [Job.party?])] at hperm
  have hjobs : jobsOf i s'.jobs = [.resume i p] := by
    have hnone := h.jobs
    rw [jobsOf] at hnone
    rw [hnone] at hperm
    exact List.perm_singleton.mp hperm
  cases hput <;> exact .going hp h.threads hjobs h.stands

theorem position_answer {rules : Rules} {c : CredentialId} {executor : Executor}
    {r : Result (Option Token)} (h : Position rules i s)
    (htake : s.takeJob? = some (.effect c executor (.answer i r), s'))
    (hanswer : ∀ signal next, rules.waits c signal next → Given rules s c signal r →
      rules.going (next r)) :
    Position rules i (s'.answer i r) := by
  have hmem : Job.effect c executor (.answer i r) ∈ jobsOf i s.jobs := mem_jobsOf_take htake rfl
  have hthreads' : s'.threads = s.threads := by
    cases takes_of_takeJob htake <;> rfl
  cases h with
  | idle h =>
    rw [h.jobs] at hmem
    cases hmem
  | going hp hthreads hjobs hstands =>
    rw [hjobs, List.mem_singleton] at hmem
    cases hmem
  | waiting hnext hthreads hjobs hstands =>
    rw [hjobs] at hmem
    cases hmem
  | @answered d executor' signal next r' hnext hgiven hthreads hjobs hstands =>
    rw [hjobs, List.mem_singleton] at hmem
    cases hmem
    have hjobs' := jobsOf_take htake rfl hjobs
    have hfound : s'.thread? i = some ⟨i, .token c signal next⟩ := by
      rw [thread?, ← List.head?_filter, hthreads', hthreads]
      rfl
    have heq : s'.answer i r = (s'.forget i).doNext (.resume i (next r)) := by
      simp only [Session.answer, hfound]
    have hidle : Idle i (s'.forget i) := by
      refine ⟨?_, hjobs', fun c k => ?_⟩
      · simp [forget]
      · have hheld := takeJob?_held htake
        show ((s'.held? c).cache.waitersOf k).count i = _
        rw [held?, hheld]
        exact hstands c k
    rw [heq]
    exact position_put hidle .next (hanswer signal next hnext hgiven)

theorem spares_answer {r : Result (Option Token)} (hij : j ≠ i) : Spares i s (s.answer j r) := by
  unfold Session.answer
  split
  · exact (spares_forget hij).trans (spares_put .next (by simpa [Job.party?] using hij))
  · exact .of_held rfl rfl .rfl

end Bearer.Session
