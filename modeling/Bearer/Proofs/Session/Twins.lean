import Bearer.Proofs.Session.Behind
import Bearer.Proofs.Session.Pending

namespace Bearer.Session

/-- What was seen, with something else in place of the callbacks of one call. -/
def retell (call : String) (told : Result Metadata → List Observation)
    (trace : List Observation) : List Observation :=
  trace.flatMap fun o =>
    match o.callback? call with
    | some outcome => told outcome
    | none => [o]

theorem retell_append (call : String) (told : Result Metadata → List Observation)
    (trace more : List Observation) :
    retell call told (trace ++ more) = retell call told trace ++ retell call told more :=
  List.flatMap_append

theorem retell_own (call : String) (told : Result Metadata → List Observation)
    (outcome : Result Metadata) (trace : List Observation) :
    retell call told (.noted (.calledBack call outcome) :: trace) =
      told outcome ++ retell call told trace := by
  rw [retell, List.flatMap_cons, callback_own]
  rfl

theorem retell_of_silent {call : String} {trace : List Observation}
    (h : callbacks call trace = []) (told : Result Metadata → List Observation) :
    retell call told trace = trace := by
  have hnone := List.filterMap_eq_nil_iff.mp h
  induction trace with
  | nil => rfl
  | cons o trace ih =>
    have hrest := fun o ho => hnone o (List.mem_cons_of_mem _ ho)
    rw [retell, List.flatMap_cons, hnone o List.mem_cons_self]
    exact congrArg (o :: ·) (ih (List.filterMap_eq_nil_iff.mpr hrest) hrest)

theorem callbacks_own (call : String) (outcome : Result Metadata)
    (new old : List Observation) :
    callbacks call (new ++ .noted (.calledBack call outcome) :: old) =
      callbacks call new ++ outcome :: callbacks call old := by
  rw [callbacks, List.filterMap_append, List.filterMap_cons_some (callback_own call outcome)]
  rfl

/-- Of one callback, something else is told in one place. -/
theorem retell_of_once {call : String} {outcome other : Result Metadata}
    {new old : List Observation}
    (h : callbacks call (new ++ .noted (.calledBack call outcome) :: old) = [other])
    (told : Result Metadata → List Observation) :
    retell call told (new ++ .noted (.calledBack call outcome) :: old) =
      new ++ (told outcome ++ old) := by
  have hlengths := congrArg List.length h
  simp only [callbacks_own, List.length_append, List.length_cons, List.length_nil] at hlengths
  have hnew : callbacks call new = [] := List.length_eq_zero_iff.mp (by omega)
  have hold : callbacks call old = [] := List.length_eq_zero_iff.mp (by omega)
  rw [retell_append, retell_of_silent hnew, retell_own, retell_of_silent hold]

/-- A session but for one thread. -/
def without (s : Session) (i : Cache.CallerId) : Session :=
  { s with
    threads := s.threads.filter (fun t => t.id ≠ i)
    agenda := s.agenda.filter (fun job => job.party? ≠ some i) }

@[simp] theorem held_without (s : Session) (i : Cache.CallerId) : (s.without i).held = s.held :=
  rfl

@[simp] theorem trace_without (s : Session) (i : Cache.CallerId) :
    (s.without i).trace = s.trace := rfl

/-- The thread of a call that goes on in some other way. -/
def Async.double (a : Async) (tale : Result (Option Token) → Procedure Ending) : Thread :=
  ⟨a.id, .token a.credential none tale⟩

/-- Another way for a call with a callback to go on: where the one has only called back,
the other has been seen to do something else, and nothing is left to be done. -/
structure Async.Instead (a : Async) (tale : Result (Option Token) → Procedure Ending)
    (told : Result Metadata → List Observation) : Prop where
  calm : a.throwing = none
  tells : ∀ (s : Session) (r : Result (Option Token)), s.inner = [] →
    (s.held? a.credential).credential.toSetup = a.owner.toSetup →
    (advance a.id (tale r) s).finishCall =
      { s with trace := told (a.owner.headersOf (givenToken r)) ++ s.trace }

/-- Two sessions that differ in one call alone. -/
inductive Twins (a : Async) (tale : Result (Option Token) → Procedure Ending)
    (told : Result Metadata → List Observation) : Session → Session → Prop
  | waiting (s : Session) {before : List Thread} (hbefore : ∀ t ∈ before, t.id ≠ a.id) :
      Twins a tale told (s.behind (before ++ [a.double tale]) [] [])
        (s.behind (before ++ [a.thread]) [] [])
  | due (s : Session) (before : List Job) (r : Result (Option Token)) :
      Twins a tale told (s.behind [] (before ++ [.resume a.id (tale r)]) [])
        (s.behind [] (before ++ [.resume a.id (a.tale r)]) [])
  | past (s : Session) (before : List Observation) (outcome : Result Metadata) :
      Twins a tale told (s.behind [] [] (told outcome ++ before))
        (s.behind [] [] (.noted (.calledBack a.name outcome) :: before))

section Behind
variable (s : Session) (threads : List Thread) (agenda : List Job) (trace : List Observation)

theorem behind_nil : s.behind [] [] [] = s := by
  simp [behind]

theorem forget_behind (id : Cache.CallerId) :
    (s.behind threads agenda trace).forget id =
      (s.forget id).behind (threads.filter fun t => t.id ≠ id) agenda trace := by
  simp [forget, behind]

theorem answer_behind (id : Cache.CallerId) (outcome : Result (Option Token)) :
    (s.behind [] agenda trace).answer id outcome =
      (s.answer id outcome).behind [] agenda trace := by
  have hfound : (s.behind [] agenda trace).thread? id = s.thread? id := rfl
  unfold answer
  rw [hfound]
  split
  · rw [forget_behind, doNext_behind]
    rfl
  · rfl

theorem takeJob_agenda (hinner : s.inner = []) (job : Job) :
    (s.behind threads (job :: agenda) trace).takeJob? =
      some (job, s.behind threads agenda trace) := by
  simp [takeJob?, behind, hinner]

theorem takeJob_inner {job : Job} {rest : List Job} (hinner : s.inner = job :: rest) :
    (s.behind threads agenda trace).takeJob? =
      some (job, ({ s with inner := rest } : Session).behind threads agenda trace) := by
  simp [takeJob?, behind, hinner]

theorem takeJob_behind : (s.behind threads [] trace).takeJob? =
    s.takeJob?.map fun taken => (taken.1, taken.2.behind threads [] trace) := by
  cases hinner : s.inner with
  | cons job rest => simp [takeJob?, behind, hinner]
  | nil =>
    cases hagenda : s.agenda with
    | cons job rest => simp [takeJob?, behind, hinner, hagenda]
    | nil =>
      cases hdeferred : s.deferred with
      | cons job rest => simp [takeJob?, behind, hinner, hagenda, hdeferred]
      | nil => simp [takeJob?, behind, hinner, hagenda, hdeferred, Function.comp_def]

end Behind

theorem blind_doNext (job : Job) : Blind (·.doNext job) := fun s threads agenda trace =>
  doNext_behind s threads agenda trace job

theorem work_one (s : Session) : s.work 1 =
    s.takeJob?.elim s fun taken => taken.2.perform taken.1 := by
  cases h : s.takeJob? <;> simp only [work, h, Option.elim]

theorem workInner_nil {s : Session} (h : s.inner = []) (n : Nat) : workInner n s = s := by
  cases n with
  | zero => rfl
  | succ n => simp only [workInner, h]

namespace Twins
variable {a : Async} {tale : Result (Option Token) → Procedure Ending}
  {told : Result Metadata → List Observation} {s t : Session}

theorem blind {f : Session → Session} (h : Twins a tale told s t) (hf : Blind f) :
    Twins a tale told (f s) (f t) := by
  cases h with
  | waiting s hbefore =>
    rw [hf, hf]
    exact .waiting (f s) hbefore
  | due s before r =>
    rw [hf, hf]
    exact .due (f s) before r
  | past s before outcome =>
    rw [hf, hf]
    exact .past (f s) before outcome

theorem inner (h : Twins a tale told s t) : s.inner = t.inner := by
  cases h <;> rfl

theorem now (h : Twins a tale told s t) : s.now = t.now := by
  cases h <;> rfl

theorem aborted (h : Twins a tale told s t) : s.aborted = t.aborted := by
  cases h <;> rfl

/-- Who looks for something else than a wait for a token sees the same threads. -/
theorem filterMap (h : Twins a tale told s t) {α : Type} {f : Thread → Option α}
    (hf : ∀ c next, f ⟨a.id, .token c none next⟩ = none) :
    s.threads.filterMap f = t.threads.filterMap f := by
  cases h with
  | waiting s hbefore =>
    simp [behind, List.filterMap_append, Async.double, Async.thread, hf]
  | due s before r => rfl
  | past s before outcome => rfl

theorem forget (h : Twins a tale told s t) {id : Cache.CallerId} (hid : id ≠ a.id) :
    Twins a tale told (s.forget id) (t.forget id) := by
  cases h with
  | waiting s hbefore =>
    have hkeep : ∀ next, List.filter (fun t : Thread => t.id ≠ id)
        [⟨a.id, .token a.credential none next⟩] = [⟨a.id, .token a.credential none next⟩] :=
      fun next => List.filter_cons_of_pos (by simpa using Ne.symm hid)
    rw [forget_behind, forget_behind, List.filter_append, List.filter_append, Async.double,
      Async.thread, hkeep, hkeep]
    exact .waiting (s.forget id) fun t ht => hbefore t (List.mem_filter.mp ht).1
  | due s before r =>
    rw [forget_behind, forget_behind]
    exact .due (s.forget id) before r
  | past s before outcome =>
    rw [forget_behind, forget_behind]
    exact .past (s.forget id) before outcome

/-- The thread that waits gets its answer, and is to go on next. -/
theorem answer_waiting (s : Session) {i : Cache.CallerId} {before : List Thread}
    (hbefore : ∀ t ∈ before, t.id ≠ i) (c : CredentialId)
    (next : Result (Option Token) → Procedure Ending) (outcome : Result (Option Token)) :
    (s.behind (before ++ [⟨i, .token c none next⟩]) [] []).answer i outcome =
      ({ (s.forget i) with threads := before ++ (s.forget i).threads, agenda := [] } :
        Session).behind [] (s.agenda ++ [.resume i (next outcome)]) [] := by
  have hnone : before.find? (fun t => t.id = i) = none :=
    List.find?_eq_none.mpr fun t ht => by simpa using hbefore t ht
  have hkeep : before.filter (fun t => t.id ≠ i) = before :=
    List.filter_eq_self.mpr fun t ht => by simpa using hbefore t ht
  have hfound : (s.behind (before ++ [⟨i, .token c none next⟩]) [] []).thread? i =
      some ⟨i, .token c none next⟩ := by
    simp [thread?, behind, hnone]
  simp only [Session.answer, hfound, forget_behind, List.filter_append, hkeep]
  simp [behind, doNext, Session.forget]

/-- Both get the same answer. If it is for the call, its threads are to go on next. -/
theorem answer (h : Twins a tale told s t) (id : Cache.CallerId)
    (outcome : Result (Option Token)) :
    Twins a tale told (s.answer id outcome) (t.answer id outcome) := by
  cases h with
  | @waiting s before hbefore =>
    by_cases hid : id = a.id
    · subst hid
      rw [Async.double, Async.thread, answer_waiting s hbefore, answer_waiting s hbefore]
      exact .due _ s.agenda outcome
    · have hfound : ∀ next : Result (Option Token) → Procedure Ending,
          (s.behind (before ++ [⟨a.id, .token a.credential none next⟩]) [] []).thread? id =
            (s.behind before [] []).thread? id := by
        intro next
        simp [thread?, behind, List.find?_append, Ne.symm hid]
      have hwaiting : Twins a tale told _ _ := .waiting s hbefore
      rw [Async.double, Async.thread] at hwaiting ⊢
      simp only [Session.answer, hfound]
      split
      · exact (hwaiting.forget hid).blind (blind_doNext _)
      · exact hwaiting
  | due s before r =>
    rw [answer_behind, answer_behind]
    exact .due (s.answer id outcome) before r
  | past s before told =>
    rw [answer_behind, answer_behind]
    exact .past (s.answer id outcome) before told

theorem perform (h : Twins a tale told s t) (job : Job) :
    Twins a tale told (s.perform job) (t.perform job) := by
  by_cases hjob : ∃ c executor id outcome, job = .effect c executor (.answer id outcome)
  · obtain ⟨c, executor, id, outcome, rfl⟩ := hjob
    exact h.answer id outcome
  · refine h.blind (blind_perform fun c executor id outcome heq => hjob ?_)
    exact ⟨c, executor, id, outcome, heq⟩

theorem workInner (h : Twins a tale told s t) (n : Nat) :
    Twins a tale told (workInner n s) (workInner n t) := by
  induction n generalizing s t with
  | zero => exact h
  | succ n ih =>
    unfold Session.workInner
    rw [h.inner]
    split
    · exact h
    · next job rest hinner =>
      have hrest : Twins a tale told { s with inner := rest } { t with inner := rest } :=
        h.blind (f := fun s => { s with inner := rest }) fun s threads agenda trace => rfl
      exact ih (hrest.perform job)

theorem finishCall (h : Twins a tale told s t) :
    Twins a tale told s.finishCall t.finishCall := h.workInner plenty

theorem stepCache (h : Twins a tale told s t) (c : CredentialId) (executor : Executor)
    (e : Cache.Event) : Twins a tale told (s.stepCache c executor e) (t.stepCache c executor e) :=
  h.blind (f := (·.stepCache c executor e)) fun _ _ _ _ => rfl

theorem spawn (h : Twins a tale told s t) (p : Procedure Ending) :
    Twins a tale told (s.spawn p).finishCall (t.spawn p).finishCall :=
  (h.blind (blind_spawn p)).finishCall

theorem abort (h : Twins a tale told s t) (signal : Signal) (reason : Thrown) :
    Twins a tale told (s.abort signal reason) (t.abort signal reason) := by
  unfold Session.abort
  rw [h.aborted]
  split
  · exact h
  · have hmarked : Twins a tale told { s with aborted := (signal, reason) :: t.aborted }
        { t with aborted := (signal, reason) :: t.aborted } :=
      h.blind (f := fun s => { s with aborted := (signal, reason) :: t.aborted })
        fun s threads agenda trace => rfl
    dsimp only
    -- Nobody of whom the two differ waits under the signal.
    rw [h.filterMap (f := waitsFor signal) fun c next => rfl]
    generalize t.threads.filterMap (waitsFor signal) = waiting
    generalize ({ s with aborted := (signal, reason) :: t.aborted } : Session) = s at hmarked
    generalize ({ t with aborted := (signal, reason) :: t.aborted } : Session) = t at hmarked
    induction waiting generalizing s t with
    | nil => exact hmarked
    | cons w waiting ih => exact ih _ _ (hmarked.stepCache w.1 .direct _).finishCall

theorem findSome (h : Twins a tale told s t) {α : Type} {f : Thread → Option α}
    (hf : ∀ c next, f ⟨a.id, .token c none next⟩ = none) :
    s.threads.findSome? f = t.threads.findSome? f := by
  rw [← List.head?_filterMap, ← List.head?_filterMap, h.filterMap hf]

/-- In both the same thread goes on, unless it is that of the call. -/
theorem wake (h : Twins a tale told s t) (hsound : t.Sound (Query.Spares a.name) (some a.id))
    {f : Waiting → Option (Procedure Ending)} (hno : ∀ c next, f (.token c none next) = none) :
    Twins a tale told (s.wake f) (t.wake f) := by
  unfold Session.wake
  rw [h.findSome fun c next => by simp [hno]]
  split
  · next id p hfound =>
    obtain ⟨thread, hmem, hit⟩ := List.exists_of_findSome?_eq_some hfound
    obtain ⟨p', hp, heq⟩ := Option.map_eq_some_iff.mp hit
    cases heq
    have hother : thread.id ≠ a.id := by
      intro hid
      obtain ⟨c, next, hw⟩ := (hsound.threads thread hmem).2.2 (congrArg some hid.symm)
      rw [hw, hno] at hp
      cases hp
    exact (h.forget hother).blind (blind_doNext _)
  · exact h

/-- What is seen of calling back if the callback does not throw. -/
theorem calm_finishCall (hcalm : a.throwing = none) {s : Session} (hinner : s.inner = [])
    (r : Result (Option Token)) : (advance a.id (a.tale r) s).finishCall =
      s.observe (.noted (.calledBack a.name (a.owner.headersOf (givenToken r)))) := by
  rw [Async.tale, Async.advance_announce, hcalm]
  exact workInner_nil (s := s.observe _) hinner plenty

/-- Both do the next piece of work. If it is the call's own, that is where the two ways
part. -/
theorem work (h : Twins a tale told s t) (hinstead : a.Instead tale told) (hsited : a.Sited t) :
    Twins a tale told (s.work 1).finishCall (t.work 1).finishCall := by
  rw [work_one, work_one]
  cases h with
  | waiting s hbefore =>
    rw [takeJob_behind, takeJob_behind]
    cases s.takeJob? with
    | none => exact (Twins.waiting s hbefore).finishCall
    | some taken => exact ((Twins.waiting taken.2 hbefore).perform taken.1).finishCall
  | past s before outcome =>
    rw [takeJob_behind, takeJob_behind]
    cases s.takeJob? with
    | none => exact (Twins.past s before outcome).finishCall
    | some taken => exact ((Twins.past taken.2 before outcome).perform taken.1).finishCall
  | due s before r =>
    cases hinner : s.inner with
    | cons job rest =>
      rw [takeJob_inner _ _ _ _ hinner, takeJob_inner _ _ _ _ hinner]
      exact ((Twins.due { s with inner := rest } before r).perform job).finishCall
    | nil =>
      cases before with
      | cons job before =>
        rw [List.cons_append, List.cons_append, takeJob_agenda _ _ _ _ hinner,
          takeJob_agenda _ _ _ _ hinner]
        exact ((Twins.due s before r).perform job).finishCall
      | nil =>
        rw [List.nil_append, List.nil_append, takeJob_agenda _ _ _ _ hinner,
          takeJob_agenda _ _ _ _ hinner]
        rw [behind_nil]
        change Twins a tale told (advance a.id (tale r) s).finishCall
          (advance a.id (a.tale r) s).finishCall
        rw [hinstead.tells s r hinner hsited.setup, calm_finishCall hinstead.calm hinner]
        exact .past { s with trace := [] } s.trace _

theorem apply (h : Twins a tale told s t) (hinstead : a.Instead tale told) (hsited : a.Sited t)
    (m : Move) : Twins a tale told (m.apply s) (m.apply t) := by
  cases m with
  | call name program => exact h.spawn _
  | quietly program => exact h.spawn _
  | abort signal reason => exact h.abort signal reason
  | endOperation number outcome =>
    simp only [Move.apply, endOperation_eq_wake, h.now]
    exact h.wake hsited.sound fun _ _ => rfl
  | release gate =>
    simp only [Move.apply, release_eq_wake]
    exact h.wake hsited.sound fun _ _ => rfl
  | runKept =>
    have hkept : s.kept = t.kept := by cases h <;> rfl
    refine finishCall ?_
    rw [hkept]
    exact h.blind (f := fun s => ({ s with kept := [] } : Session).doFirst t.kept)
      fun _ _ _ _ => rfl
  | work => exact h.work hinstead hsited
  | world w => exact h.blind (f := w.around) fun _ _ _ _ => rfl

/-- Twins stay twins, whatever the schedule. -/
theorem play (h : Twins a tale told s t) (hinstead : a.Instead tale told)
    (hcall : a.Ahead t ∨ ∃ outcome, a.Over outcome t) {moves : List Move}
    (hmoves : ∀ m ∈ moves, m.Asks (Query.Spares a.name)) :
    Twins a tale told (s.play moves) (t.play moves) := by
  induction moves generalizing s t with
  | nil => exact h
  | cons m moves ih =>
    have hsited : a.Sited t := by
      rcases hcall with hahead | ⟨outcome, hover⟩
      · exact hahead.toSited
      · exact hover.toSited
    refine ih (h.apply hinstead hsited m) ?_ fun n hn => hmoves n (List.mem_cons_of_mem _ hn)
    exact a.kept_throughout.apply (hmoves m List.mem_cons_self) hcall

/-- Apart from the thread of the call, the one is the other with something else seen of
it. -/
theorem retold (h : Twins a tale told s t) (hcall : a.Ahead t ∨ ∃ outcome, a.Over outcome t) :
    s.without a.id =
      { t.without a.id with trace := retell a.name told t.trace } := by
  cases h with
  | waiting s hbefore =>
    rcases hcall with hahead | ⟨outcome, hover⟩
    · rw [retell_of_silent hahead.silent]
      simp [without, behind, Async.double, Async.thread]
    · -- Nobody waits any more whose callback has been called.
      have hnone := hover.whereabouts.threads
      simp [behind, Async.thread] at hnone
  | due s before r =>
    rcases hcall with hahead | ⟨outcome, hover⟩
    · rw [retell_of_silent hahead.silent]
      simp [without, behind, Job.party?]
    · have hnone := hover.whereabouts.agenda
      simp [behind, jobsOf_cons_own (show (Job.resume a.id (a.tale r)).party? = some a.id from rfl)]
        at hnone
  | past s before outcome =>
    rcases hcall with hahead | ⟨other, hover⟩
    · have hsilent := hahead.silent
      simp [behind, callbacks_own] at hsilent
    · have honce := retell_of_once hover.called told
      simp only [without, behind, honce]

end Twins
end Bearer.Session
