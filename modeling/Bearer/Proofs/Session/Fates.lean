import Bearer.Proofs.Session.Staffing

namespace Bearer.Session

variable {i : Cache.CallerId} {programs : Procedure Ending → Prop} {s s' t : Session}

theorem Use.acts (hs : s.Sound (fun _ => True) none) (h : Use programs s s') :
    Acts (fun _ => True) none s s' := by
  cases h with
  | @work job t htake =>
    have htakes := takes_of_takeJob htake
    obtain ⟨hborn, hasks⟩ := hs.jobs job htakes.mem
    exact .head (.take job nofun htakes) (perform_acts native_anything (hs.take htakes)
      (hasks nofun) (htakes.born ▸ hborn) nofun)
  | start hp => exact spawn_acts (by simp) (Procedure.Asks.anything _)
  | signal aborted => exact .single (.aside s.offsets s.replies s.started aborted)
  | @giveUp id c name next ht reason =>
    refine .single (.cache c .direct (.abort id reason) (fun caller hcaller => ?_) nofun)
    cases hcaller
    exact (hs.threads _ ht).1
  | reclaim => exact .single .reclaim
  | world w hw => exact .single (.world w)

theorem sound_uses (hs : s.Sound (fun _ => True) none) (h : Uses programs s s') :
    s'.Sound (fun _ => True) none := by
  induction h with
  | refl => exact hs
  | tail _ huse ih => exact ih.acts (huse.acts ih)

/-- A thread has no part in what is done, unless it is its own work or the thread gives up. -/
theorem Use.beside (hs : s.Sound (fun _ => True) none) (hi : i < s.born)
    (h : Use programs s s') :
    (∃ job t, s.takeJob? = some (job, t) ∧ job.party? = some i ∧ s' = t.perform job) ∨
      (∃ c name next reason, ⟨i, .token c (some name) next⟩ ∈ s.threads ∧
        s' = s.stepCache c .direct (.abort i reason)) ∨
      Acts (fun _ => True) (some i) s s' := by
  cases h with
  | @work job t htake =>
    by_cases hown : job.party? = some i
    · exact .inl ⟨job, t, htake, hown, rfl⟩
    · have hapart : Apart (some i) job.party? := by
        rintro id hid ⟨⟩
        exact hown hid
      have htakes := takes_of_takeJob htake
      obtain ⟨hborn, hasks⟩ := hs.jobs job htakes.mem
      have ht := hs.take htakes
      have hacts : Acts (fun _ => True) (some i) t (t.perform job) := by
        refine perform_acts_of native_anything.requests ?_ (fun u hu => ?_) (hasks nofun)
          (htakes.born ▸ hborn) hapart fun c _ _ _ _ x n _ => native_anything.listeners x c n
        · rw [htakes.born]
          simpa using Nat.ne_of_lt hi
        · exact ⟨(ht.threads u hu).1, fun _ => (ht.threads u hu).2.1 nofun⟩
      exact .inr (.inr (.head (.take job hapart htakes) hacts))
  | start hp =>
    exact .inr (.inr (spawn_acts (by simpa using Nat.ne_of_lt hi) (Procedure.Asks.anything _)))
  | signal aborted =>
    exact .inr (.inr (.single (.aside s.offsets s.replies s.started aborted)))
  | @giveUp id c name next ht reason =>
    by_cases hown : i = id
    · subst hown
      exact .inr (.inl ⟨c, name, next, reason, ht, rfl⟩)
    · refine .inr (.inr (.single (.cache c .direct (.abort id reason) (fun caller hcaller => ?_)
        (apart_some (by simpa using hown)))))
      cases hcaller
      exact (hs.threads _ ht).1
  | reclaim => exact .inr (.inr (.single .reclaim))
  | world w hw => exact .inr (.inr (.single (.world w)))

/-- All that is left of a thread is this, or that has been done. -/
inductive Concludes (i : Cache.CallerId) (p : Procedure Ending) (post : Session → Prop)
    (s : Session) : Prop
  | answered {c : CredentialId} {executor : Executor} {signal : Option Signal}
      {r : Result (Option Token)} {next : Result (Option Token) → Procedure Ending}
      (hnext : next r = p)
      (threads : s.threads.filter (fun t => t.id = i) = [⟨i, .token c signal next⟩])
      (jobs : jobsOf i s.jobs = [.effect c executor (.answer i r)])
  | going (threads : s.threads.filter (fun t => t.id = i) = [])
      (jobs : jobsOf i s.jobs = [.resume i p])
  | ended (threads : s.threads.filter (fun t => t.id = i) = []) (jobs : jobsOf i s.jobs = [])
      (h : post s)

variable {c : CredentialId} {j : Cache.RefreshId} {signal : Option Signal}
  {next : Result (Option Token) → Procedure Ending} {post : Thrown → Session → Prop}

/-- A caller gets this failure who gave up, and could. -/
def GaveUp (signal : Option Signal) (e : Thrown) : Prop :=
  signal ≠ none ∧ ∃ reason, e = (Fault.refreshAborted reason).thrown

/-- A caller gets this failure: the refresh has failed with it, or the caller gave up. -/
def Fails (c : CredentialId) (j : Cache.RefreshId) (signal : Option Signal) (e : Thrown)
    (s : Session) : Prop :=
  (s.held? c).cache.stage? j = some (.finished (.error e)) ∨ GaveUp signal e

/-- The fate of a thread that waits for a refresh, or has waited. -/
inductive Fate (i : Cache.CallerId) (c : CredentialId) (j : Cache.RefreshId)
    (signal : Option Signal) (next : Result (Option Token) → Procedure Ending)
    (post : Thrown → Session → Prop) (s : Session) : Prop
  | waiting (hw : Whereabouts i [⟨i, .token c signal next⟩] [] [] s)
      (hp : StandsAt i (some (c, j)) s)
  | answered {executor : Executor} {e : Thrown} (he : Fails c j signal e s)
      (hw : Whereabouts i [⟨i, .token c signal next⟩]
        [.effect c executor (.answer i (.error e))] [] s) (hp : StandsAt i none s)
  | going {e : Thrown} (he : Fails c j signal e s)
      (hw : Whereabouts i [] [] [.resume i (next (.error e))] s) (hp : StandsAt i none s)
  | ended {e : Thrown} (he : Fails c j signal e s) (hw : Whereabouts i [] [] [] s)
      (hp : StandsAt i none s) (h : post e s)
  | served {t : Token} (hj : (s.held? c).cache.stage? j = some (.finished (.ok t)))

theorem Whereabouts.jobs {threads : List Thread} {inner agenda : List Job}
    (h : Whereabouts i threads inner agenda s) : jobsOf i s.jobs = inner ++ agenda := by
  simp [Session.jobs, h.inner, h.agenda, h.deferred, h.kept, h.timers]

theorem finished_act {P : Query → Prop} {bystander : Option Cache.CallerId}
    {outcome : Result Token} (hact : Act P bystander s s')
    (h : (s.held? c).cache.stage? j = some (.finished outcome)) :
    (s'.held? c).cache.stage? j = some (.finished outcome) := by
  have hc : c < s.held.length := by
    by_contra hnone
    rw [held?_eq_default hnone] at h
    cases h
  obtain ⟨-, -, es, hcache⟩ := hact.held hc
  rw [hcache]
  exact Cache.State.after_keeps _ (p := fun cache => cache.stage? j = some (.finished outcome))
    (fun cache e => Cache.State.finished_step _ cache e j outcome) _ es h

theorem finished_acts {P : Query → Prop} {bystander : Option Cache.CallerId}
    {outcome : Result Token} (hacts : Acts P bystander s s')
    (h : (s.held? c).cache.stage? j = some (.finished outcome)) :
    (s'.held? c).cache.stage? j = some (.finished outcome) := by
  induction hacts with
  | refl => exact h
  | tail _ hact ih => exact finished_act hact ih

def FailedWith (c : CredentialId) (k : Cache.RefreshId) (e : Thrown) (s : Session) : Prop :=
  (s.held? c).cache.stage? k = some (.settled (.error e)) ∨
    (s.held? c).cache.stage? k = some (.finished (.error e))

theorem FailedWith.act {P : Query → Prop} {bystander : Option Cache.CallerId} {e : Thrown}
    (h : FailedWith c j e s) (hact : Act P bystander s s') : FailedWith c j e s' := by
  have hc : c < s.held.length := by
    by_contra hnone
    rw [FailedWith, held?_eq_default hnone] at h
    rcases h with h | h <;> cases h
  obtain ⟨-, -, es, hcache⟩ := hact.held hc
  rw [FailedWith, hcache]
  refine Cache.State.after_keeps _ (p := fun cache => cache.stage? j = some (.settled (.error e)) ∨
    cache.stage? j = some (.finished (.error e))) (fun cache event hcache => ?_) _ es h
  rcases Cache.State.stage_step ⟨(s.held? c).credential.logging⟩ cache event j with
    hsame | ⟨stage, hturn, hstage⟩
  · rwa [hsame]
  · rcases hcache with hsettled | hfinished
    · cases hturn with
      | started =>
        rw [(Cache.State.stage?_eq_none cache _).mpr (Nat.le_refl _)] at hsettled
        cases hsettled
      | failed hj =>
        rw [hsettled] at hj
        cases hj
        exact .inr hstage
      | launched hj | settled hj | installed hj | told hj | untold hj =>
        rw [hsettled] at hj
        cases hj
    · exact .inr (Cache.State.finished_step _ cache event j _ hfinished)

theorem Fails.act {P : Query → Prop} {bystander : Option Cache.CallerId} {e : Thrown}
    (h : Fails c j signal e s) (hact : Act P bystander s s') : Fails c j signal e s' :=
  h.imp_left (finished_act hact)

theorem Fails.acts {P : Query → Prop} {bystander : Option Cache.CallerId} {e : Thrown}
    (h : Fails c j signal e s) (hacts : Acts P bystander s s') : Fails c j signal e s' :=
  h.imp_left (finished_acts hacts)

namespace Fate

/-- Once the refresh has failed, the thread is left with its failure, or has given up. -/
theorem concludes (hs : s.Sound (fun _ => True) none) (h : Fate i c j signal next post s)
    {e : Thrown} (hj : (s.held? c).cache.stage? j = some (.finished (.error e))) :
    ∃ e', (e' = e ∨ GaveUp signal e') ∧ Concludes i (next (.error e')) (post e') s := by
  have hsame {e' : Thrown} (he : Fails c j signal e' s) : e' = e ∨ GaveUp signal e' := by
    refine he.imp_left fun hj' => ?_
    rw [hj] at hj'
    cases hj'
    rfl
  cases h with
  | waiting hw hp =>
    obtain ⟨es, hcache⟩ := hs.history c
    have halone := Cache.State.finishedAlone_after ⟨(s.held? c).credential.logging⟩
      (s.held? c).credential.token es
    rw [← hcache] at halone
    exact absurd hj (hp.waitsOnce.not_finished halone _)
  | answered he hw hp => exact ⟨_, hsame he, .answered rfl hw.threads hw.jobs⟩
  | going he hw hp => exact ⟨_, hsame he, .going hw.threads hw.jobs⟩
  | ended he hw hp h => exact ⟨_, hsame he, .ended hw.threads hw.jobs h⟩
  | served hj' =>
    rw [hj] at hj'
    cases hj'

/-- What others do does not change the fate of a thread. -/
theorem acts (h : Fate i c j signal next post s)
    (hpost : ∀ e s s', Act (fun _ => True) (some i) s s' → post e s → post e s')
    (hacts : Acts (fun _ => True) (some i) s s') : Fate i c j signal next post s' := by
  induction hacts with
  | refl => exact h
  | tail _ hact ih =>
    cases ih with
    | waiting hw hp =>
      rcases hw.act hp hact with ⟨hw', hp'⟩ | ⟨b, k, executor, outcome, hplace, hw', hj, hp'⟩
      · exact .waiting hw' hp'
      · obtain ⟨rfl, rfl⟩ : c = b ∧ j = k := by simpa using hplace
        cases outcome with
        | error e => exact .answered (.inl hj) hw' hp'
        | ok t => exact .served hj
    | answered he hw hp =>
      rcases hw.act hp hact with ⟨hw', hp'⟩ | ⟨b, k, executor, outcome, hplace, -⟩
      · exact .answered (he.act hact) hw' hp'
      · cases hplace
    | going he hw hp =>
      rcases hw.act hp hact with ⟨hw', hp'⟩ | ⟨b, k, executor, outcome, hplace, -⟩
      · exact .going (he.act hact) hw' hp'
      · cases hplace
    | ended he hw hp h =>
      rcases hw.act hp hact with ⟨hw', hp'⟩ | ⟨b, k, executor, outcome, hplace, -⟩
      · exact .ended (he.act hact) hw' hp' (hpost _ _ _ hact h)
      · cases hplace
    | served hj => exact .served (finished_act hact hj)

/-- The thread's own work is what its fate is. -/
theorem own (h : Fate i c j signal next post s) {job : Job} (htake : s.takeJob? = some (job, t))
    (hown : job.party? = some i) (hlater : Acts (fun _ => True) none s (t.perform job))
    (hruns : ∀ e t, Acts (fun _ => True) (some i) t (advance i (next (.error e)) t))
    (hend : ∀ e, job = .resume i (next (.error e)) → post e (advance i (next (.error e)) t)) :
    Fate i c j signal next post (t.perform job) := by
  have htakes := takes_of_takeJob htake
  have hheld := takeJob?_held? htake
  have hquiet (hp : StandsAt i none s) : StandsAt i none t := fun d k => by
    rw [hheld]
    exact hp d k
  cases h with
  | waiting hw hp =>
    rcases hw.own hown htakes with ⟨rest, hnone, -⟩ | ⟨rest, hnone, -⟩ <;> cases hnone
  | @answered executor e he hw hp =>
    rcases hw.own hown htakes with ⟨rest, heq, hw'⟩ | ⟨rest, hnone, -⟩
    · cases heq
      obtain ⟨hanswer, hw''⟩ := hw'.answer (.error e)
      refine .going (he.acts hlater) hw'' fun d k => ?_
      show (((t.answer i (.error e)).held? d).cache.waitersOf k).count i = _
      rw [hanswer]
      exact hquiet hp d k
    · cases hnone
  | @going e he hw hp =>
    rcases hw.own hown htakes with ⟨rest, hnone, -⟩ | ⟨rest, heq, hw', -⟩
    · cases hnone
    · cases heq
      obtain ⟨hw'', hp''⟩ := hw'.acts (hquiet hp) (hruns e t)
      exact .ended (he.acts hlater) hw'' hp'' (hend e rfl)
  | ended he hw hp h =>
    rcases hw.own hown htakes with ⟨rest, hnone, -⟩ | ⟨rest, hnone, -⟩ <;> cases hnone
  | served hj => exact .served (finished_acts hlater hj)

/-- A thread that gives up is told so, if it still waits. -/
theorem gives_up (h : Fate i c j signal next post s) {b : CredentialId} {name : Signal}
    {next' : Result (Option Token) → Procedure Ending}
    (ht : ⟨i, .token b (some name) next'⟩ ∈ s.threads) (reason : Thrown)
    (hlater : Acts (fun _ => True) none s (s.stepCache b .direct (.abort i reason))) :
    Fate i c j signal next post (s.stepCache b .direct (.abort i reason)) := by
  have hthread : ⟨i, .token b (some name) next'⟩ ∈ s.threads.filter (fun t => t.id = i) :=
    List.mem_filter.mpr ⟨ht, by simp⟩
  cases h with
  | waiting hw hp =>
    rw [hw.threads, List.mem_singleton] at hthread
    cases hthread
    obtain ⟨hanswers, hp'⟩ := hp.abort_waiting c .direct reason
    have hw' := hw.cache c .direct (.abort i reason)
    rw [hanswers] at hw'
    exact .answered (.inr ⟨nofun, reason, rfl⟩) hw' hp'
  | answered he hw hp =>
    rw [hw.threads, List.mem_singleton] at hthread
    cases hthread
    obtain ⟨hanswers, hp'⟩ := hp.abort_idle c .direct reason
    have hw' := hw.cache c .direct (.abort i reason)
    rw [hanswers] at hw'
    exact .answered (he.acts hlater) hw' hp'
  | going _ hw | ended _ hw =>
    rw [hw.threads] at hthread
    cases hthread
  | served hj => exact .served (finished_acts hlater hj)

/-- Whatever is done in a session, the thread keeps its fate. -/
theorem use (hs : s.Sound (fun _ => True) none) (hi : i < s.born)
    (h : Fate i c j signal next post s)
    (hpost : ∀ e s s', Act (fun _ => True) (some i) s s' → post e s → post e s')
    (hruns : ∀ e t, Acts (fun _ => True) (some i) t (advance i (next (.error e)) t))
    (hend : ∀ e t, s.takeJob? = some (.resume i (next (.error e)), t) →
      post e (advance i (next (.error e)) t))
    (huse : Use programs s s') : Fate i c j signal next post s' := by
  have hacts := huse.acts hs
  rcases huse.beside hs hi with ⟨job, t, htake, hown, rfl⟩ | ⟨b, name, next', reason, ht, rfl⟩ |
    hbeside
  · exact h.own htake hown hacts hruns fun e heq => hend e t (heq ▸ htake)
  · exact h.gives_up ht reason hacts
  · exact h.acts hpost hbeside

end Fate

/-- Throughout a run in which something stays true that lets threads end as they should, a
thread that waits for a refresh keeps its fate. -/
theorem fate_uses {I : Session → Prop} (hI : ∀ s s', I s → Use programs s s' → I s')
    (hpost : ∀ e s s', Act (fun _ => True) (some i) s s' → post e s → post e s')
    (hruns : ∀ e t, Acts (fun _ => True) (some i) t (advance i (next (.error e)) t))
    (hend : ∀ e s t, I s → s.takeJob? = some (.resume i (next (.error e)), t) →
      post e (advance i (next (.error e)) t))
    (hs : s.Sound (fun _ => True) none) (hi : i < s.born) (hs' : I s)
    (h : Fate i c j signal next post s) (huses : Uses programs s s') :
    Fate i c j signal next post s' := by
  have hall : I s' ∧ s'.Sound (fun _ => True) none ∧ i < s'.born ∧
      Fate i c j signal next post s' := by
    induction huses with
    | refl => exact ⟨hs', hs, hi, h⟩
    | tail _ huse ih =>
      obtain ⟨hkept, hsound, hborn, hfate⟩ := ih
      have hacts := huse.acts hsound
      exact ⟨hI _ _ hkept huse, hsound.acts hacts, Nat.lt_of_lt_of_le hborn hacts.born,
        hfate.use hsound hborn hpost hruns (fun e t => hend e _ t hkept) huse⟩
  exact hall.2.2.2

section Waiters
variable {d : Discipline} {replies : List Reply} {signal : Option Signal}
  {next : Result (Option Token) → Procedure Ending}

/-- A thread that has to end as the operation of a refresh works for it. -/
theorem Staffed.working_waiting (h : s.Staffed) {b : CredentialId} {k : Cache.RefreshId}
    {outcome : Result Token} (hw : ⟨i, .token c signal next⟩ ∈ s.threads) {e : Thrown}
    (hnext : next (.error e) = .done (.ok (.operation b k outcome))) :
    (s.held? b).cache.stage? k = some .working := by
  have hduty : Waiting.duty b k (.token c signal next) = 1 := by
    refine if_neg fun helsewhere => ?_
    have hnever : Elsewhere b k (next (.error e)) := helsewhere (.error e)
    rw [hnext] at hnever
    exact hnever outcome rfl
  have hone := waiting_duty_le_workers (c := b) (k := k) hw
  rw [hduty] at hone
  exact h.working hone

/-- In a run that keeps a discipline, a thread that waits for a refresh is left with its
failure, once the refresh has failed, or has given up. -/
theorem concludes_uses (hd : d.Operates)
    (hprograms : ∀ p, programs p → ∀ v, d.good v → d.Keeps v v p)
    (hcalls : ∀ p, programs p → ∀ c k, Elsewhere c k p)
    (hs : Orderly d replies (s.view replies) s) (hstaffed : s.Staffed)
    (hsound : s.Sound (fun _ => True) none)
    (hpost : ∀ e s s', Act (fun _ => True) (some i) s s' → post e s → post e s')
    (hruns : ∀ e t, Acts (fun _ => True) (some i) t (advance i (next (.error e)) t))
    (hend : ∀ e (s t : Session), s.Staffed →
      s.takeJob? = some (.resume i (next (.error e)), t) → post e (advance i (next (.error e)) t))
    (hw : Whereabouts i [⟨i, .token c signal next⟩] [] [] s) (hp : StandsAt i (some (c, j)) s)
    (huses : Uses programs s s') {e : Thrown}
    (hj : (s'.held? c).cache.stage? j = some (.finished (.error e))) :
    ∃ e', (e' = e ∨ GaveUp signal e') ∧ Concludes i (next (.error e')) (post e') s' := by
  have hi : i < s.born := by
    refine hsound.waiters c j i (List.count_pos_iff.mp ?_)
    rw [hp c j, if_pos rfl]
    exact Nat.one_pos
  refine (fate_uses (I := fun s => Orderly d replies (s.view replies) s ∧ s.Staffed)
    (fun s s' hkept huse => ⟨(lands_use hd hprograms hkept.1 huse).orderly,
      staffed_use hd hprograms hcalls hkept.1 hkept.2 huse⟩) hpost hruns
    (fun e s t hkept => hend e s t hkept.2) hsound hi ⟨hs, hstaffed⟩
    (.waiting hw hp) huses).concludes (sound_uses hsound huses) hj

/-- If the thread is the operation of another refresh, that one fails too. -/
theorem operation_concludes (hd : d.Operates)
    (hprograms : ∀ p, programs p → ∀ v, d.good v → d.Keeps v v p)
    (hcalls : ∀ p, programs p → ∀ c k, Elsewhere c k p)
    (hs : Orderly d replies (s.view replies) s) (hstaffed : s.Staffed)
    (hsound : s.Sound (fun _ => True) none) {b : CredentialId} {k : Cache.RefreshId}
    {f : Thrown → Thrown}
    (hnext : ∀ e, next (.error e) = .done (.ok (.operation b k (.error (f e)))))
    (hw : Whereabouts i [⟨i, .token c none next⟩] [] [] s) (hp : StandsAt i (some (c, j)) s)
    (huses : Uses programs s s') {e : Thrown}
    (hj : (s'.held? c).cache.stage? j = some (.finished (.error e))) :
    Concludes i (.done (.ok (.operation b k (.error (f e))))) (FailedWith b k (f e)) s' := by
  have hpost (e : Thrown) (s s' : Session) (hact : Act (fun _ => True) (some i) s s')
      (h : FailedWith b k (f e) s) : FailedWith b k (f e) s' := h.act hact
  obtain ⟨e', he, hconcludes⟩ := concludes_uses hd hprograms hcalls hs hstaffed hsound hpost
    (fun e t => by rw [hnext]; exact finish_acts t _)
    (fun e s t h htake => by rw [hnext] at htake ⊢; exact .inl (h.settles htake)) hw hp huses hj
  obtain rfl : e' = e := he.resolve_right fun hgave => hgave.1 rfl
  rwa [hnext] at hconcludes

end Waiters

end Bearer.Session
