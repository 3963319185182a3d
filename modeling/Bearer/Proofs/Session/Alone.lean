import Bearer.Proofs.Session.Calling
import Bearer.Proofs.Session.Steps
import Mathlib.Data.List.Perm.Subperm

namespace Bearer.Session

variable {i : Cache.CallerId} {program : Option (Procedure Ending)} {p : Procedure Ending}
  {s s' : Session} {job : Job}

/-- Work that is put somewhere is one more piece. -/
theorem Puts.jobs_perm (h : s.Puts job s') : s'.jobs.Perm (job :: s.jobs) := by
  obtain ⟨before, after, hs, hs'⟩ :
      ∃ before after, s.jobs = before ++ after ∧ s'.jobs = before ++ job :: after := by
    cases h with
    | next =>
      exact ⟨s.inner ++ s.agenda, s.deferred ++ s.kept ++ s.timers.map Prod.snd,
        by simp [jobs], by simp [jobs, doNext]⟩
    | later =>
      exact ⟨s.inner ++ s.agenda ++ s.deferred, s.kept ++ s.timers.map Prod.snd,
        by simp [jobs], by simp [jobs, doLater]⟩
    | after ms => exact ⟨s.jobs, [], by simp, by simp [jobs, doAfter]⟩
    | kept =>
      exact ⟨s.inner ++ s.agenda ++ s.deferred ++ s.kept, s.timers.map Prod.snd,
        by simp [jobs], by simp [jobs]⟩
  rw [hs, hs']
  exact List.perm_middle

theorem Takes.jobs_sublist (h : s.Takes job s') : s'.jobs.Sublist s.jobs := by
  cases h with
  | inner h =>
    simp only [jobs, h, List.cons_append]
    exact List.sublist_cons_self ..
  | agenda _ h =>
    simp only [jobs, h, List.append_assoc]
    exact (List.sublist_cons_self ..).append_left _
  | deferred h =>
    simp only [jobs, h, List.append_assoc]
    exact ((List.sublist_cons_self ..).append_left _).append_left _
  | timer _ hrest => exact (hrest.map Prod.snd).append_left _

/-- To reclaim work is to move it to the front. -/
theorem jobs_reclaim (s : Session) :
    (Session.jobs ({ s with kept := [] }.doFirst s.kept)).Perm s.jobs := by
  have hfront : (s.kept ++ (s.inner ++ s.agenda ++ s.deferred)).Perm
      (s.inner ++ s.agenda ++ s.deferred ++ s.kept) := List.perm_append_comm
  simpa [jobs, doFirst] using hfront.append_right (s.timers.map Prod.snd)

theorem stepCache_jobs (s : Session) (c : CredentialId) (executor : Executor) (e : Cache.Event) :
    (s.stepCache c executor e).jobs =
      (Cache.step ⟨(s.held? c).credential.logging⟩ e (s.held? c).cache).2.map
        (.effect c executor) ++ s.jobs := by
  simp [jobs, stepCache, doFirst, modifyHeld]

def Job.Of (i : Cache.CallerId) (job : Job) : Prop := job.party? = some i

/-- Nothing is left of a thread but one piece of work, if that. -/
structure Alone (i : Cache.CallerId) (program : Option (Procedure Ending)) (s : Session) :
    Prop where
  sound : s.Sound (fun _ => True) (some i)
  threads : ∀ t ∈ s.threads, t.id ≠ i
  stands : StandsAt i none s
  jobs : (jobsOf i s.jobs).Subperm (program.toList.map (.resume i))

/-- No act of others touches the thread. -/
theorem Alone.act (h : Alone i program s) (hact : Act (fun _ => True) (some i) s s') :
    Alone i program s' := by
  have hother {party : Option Cache.CallerId} (h : Apart (some i) party) : party ≠ some i :=
    fun hparty => h i hparty rfl
  obtain ⟨hsound, hthreads, hstands, hjobs⟩ := h
  have hsound' := hsound.act hact
  cases hact with
  | put job _ _ hapart h =>
    have hperm := h.jobs_perm.filter (fun job => job.party? = some i)
    rw [List.filter_cons_of_neg (by simpa using hother hapart)] at hperm
    have hjobs' := hperm.subperm.trans hjobs
    cases h <;> exact ⟨hsound', hthreads, hstands, hjobs'⟩
  | take job _ h =>
    have hjobs' := ((h.jobs_sublist.filter _).subperm).trans hjobs
    cases h <;> exact ⟨hsound', hthreads, hstands, hjobs'⟩
  | reclaim =>
    have hperm := (jobs_reclaim s).filter (fun job => job.party? = some i)
    exact ⟨hsound', hthreads, hstands, hperm.subperm.trans hjobs⟩
  | block id w _ _ hapart =>
    refine ⟨hsound', fun t ht => ?_, hstands, hjobs⟩
    rcases List.mem_append.mp ht with ht | ht
    · exact hthreads t ht
    · obtain rfl := List.mem_singleton.mp ht
      exact fun hid => hapart (hid ▸ rfl)
  | forget id _ => exact ⟨hsound', fun t ht => hthreads t (List.mem_filter.mp ht).1, hstands, hjobs⟩
  | cache c executor e _ hapart =>
    rcases hstands.cache executor (hother hapart) with ⟨hnone, hstands'⟩ | ⟨k, _, hplace, _⟩
    · have hquiet := jobsOf_effects i c executor
        (Cache.step ⟨(s.held? c).credential.logging⟩ e (s.held? c).cache).2
      rw [hnone] at hquiet
      refine ⟨hsound', hthreads, hstands', ?_⟩
      rwa [stepCache_jobs, jobsOf_append, hquiet, List.map_nil, List.nil_append]
    · cases hplace
  | create credential =>
    exact ⟨hsound', hthreads, hstands.create credential, hjobs⟩
  | reshape c f hf =>
    exact ⟨hsound', hthreads, hstands.reshape c fun held => (hf held).1, hjobs⟩
  | _ => exact ⟨hsound', hthreads, hstands, hjobs⟩

namespace Alone

theorem acts (h : Alone i program s) (hacts : Acts (fun _ => True) (some i) s s') :
    Alone i program s' := by
  induction hacts with
  | refl => exact h
  | tail _ hact ih => exact ih.act hact

/-- The thread's own work is what was left of it. -/
theorem own (h : Alone i program s) (htake : s.takeJob? = some (job, s')) (hown : job.Of i) :
    ∃ p, program = some p ∧ job = .resume i p ∧ Alone i none s' := by
  have htakes := takes_of_takeJob htake
  have hperm := (takeJob?_perm htake).filter (fun job => job.party? = some i)
  rw [List.filter_cons_of_pos (by simpa [Job.Of] using hown)] at hperm
  have hsub : (job :: jobsOf i s'.jobs).Subperm (program.toList.map (.resume i)) :=
    hperm.symm.subperm.trans h.jobs
  cases program with
  | none => exact absurd hsub.length_le (by simp)
  | some p =>
    obtain rfl : job = .resume i p := by
      simpa using hsub.subset List.mem_cons_self
    have hnone : jobsOf i s'.jobs = [] := by
      have hle := hsub.length_le
      simp only [List.length_cons, Option.toList_some, List.length_map, List.length_nil] at hle
      exact List.eq_nil_of_length_eq_zero (by omega)
    refine ⟨p, rfl, rfl, h.sound.take htakes, ?_, ?_, hnone ▸ List.nil_subperm⟩
    · cases htakes <;> exact h.threads
    · cases htakes <;> exact h.stands

/-- Whatever happens, the thread is left as it is or goes on. -/
theorem step (h : Alone i program s) (hstep : Step (fun _ => True) s s') :
    Alone i program s' ∨ Does (Job.Of i) s s' := by
  cases hstep with
  | work htake =>
    rcases apart_or (some i) (Job.party? _) with hapart | ⟨id, hi, hid⟩
    · have htakes := takes_of_takeJob htake
      obtain ⟨hborn, hasks⟩ := h.sound.jobs _ htakes.mem
      have ht := h.act (.take _ hapart htakes)
      exact .inl (ht.acts (perform_acts native_anything ht.sound (hasks hapart)
        (htakes.born ▸ hborn) hapart))
    · cases hi
      exact .inr ⟨_, _, htake, hid, rfl⟩
  | start hp =>
    have hi : some i ≠ some s.born := fun hi => by
      exact Nat.lt_irrefl _ (Option.some.inj hi ▸ h.sound.bystander i rfl)
    exact .inl (h.acts (spawn_acts hi hp))
  | signal aborted => exact .inl (h.act (.aside s.offsets s.replies s.started aborted))
  | giveUp c id reason hborn =>
    by_cases hid : id = i
    · -- The thread waits nowhere, so there is nothing to give up.
      subst hid
      have hcalm : Cache.step ⟨(s.held? c).credential.logging⟩ (.abort id reason)
          (s.held? c).cache = ((s.held? c).cache, []) := by
        have hwaits := Cache.State.not_waits_of_count (h.stands c)
        simp [Cache.step, Cache.State.abort, hwaits]
      refine .inl ⟨h.sound.cache c .direct (e := .abort id reason) ?_, h.threads,
        fun d k => ?_, ?_⟩
      · rintro j ⟨⟩
        exact hborn
      · rw [held?_stepCache]
        split
        · next hd =>
          rw [hd.1, hcalm]
          exact h.stands c k
        · exact h.stands d k
      · rw [stepCache_jobs, hcalm]
        exact h.jobs
    · refine .inl (h.act (.cache c .direct _ (fun j hj => ?_) (apart_some ?_)))
      · cases hj
        exact hborn
      · exact fun hi => hid (Option.some.inj hi).symm
  | endOperation number outcome => exact .inl (h.acts (endOperation_acts h.sound number outcome))
  | release gate => exact .inl (h.acts (release_acts h.sound gate))
  | reclaim => exact .inl (h.act .reclaim)
  | world w _ => exact .inl (h.act (.world w))

/-- The thread's next piece of work is put somewhere. -/
theorem put (h : Alone i none s) (hput : s.Puts (.resume i p) s') : Alone i (some p) s' := by
  have hown : (Job.resume i p).party? = some i := rfl
  have hsound : s'.Sound (fun _ => True) (some i) := by
    have hasks : (Job.resume i p).Asks fun _ => True := Procedure.Asks.anything p
    refine h.sound.put (fun _ => hasks) (fun id hid => ?_) hput
    cases hid
    exact h.sound.bystander i rfl
  have hjobs : (jobsOf i s'.jobs).Subperm [.resume i p] := by
    have hperm := hput.jobs_perm.filter (fun job => job.party? = some i)
    have hnone : s.jobs.filter (fun job => job.party? = some i) = [] :=
      List.subperm_nil.mp h.jobs
    rw [List.filter_cons_of_pos (by simpa using hown), hnone] at hperm
    exact hperm.subperm
  cases hput <;> exact ⟨hsound, h.threads, h.stands, hjobs⟩

/-- Even a thread of which nothing is left might have gone on. -/
theorem weaken (h : Alone i none s) : Alone i (some p) s :=
  ⟨h.sound, h.threads, h.stands, h.jobs.trans List.nil_subperm⟩

/-- The thread calls the store. -/
theorem store (h : Alone i none s) (call : TokenStore.Call)
    (next : Result (Option String) → Procedure Ending) :
    Alone i (some (next (s.store.perform call).2)) (advance i (.ask (.store call) next) s) :=
  ((h.act (.observe (.stored call) trivial)).act (.store call trivial)).put .next

/-- The thread goes on when the answer to its request arrives. -/
theorem arrive (h : Alone i none s) (reply : Reply) :
    Alone i (some p) (s.arrive reply (.resume i p)) := by
  rcases arrive_cases s reply (.resume i p) with ⟨-, hlost⟩ | hput
  · exact hlost.symm ▸ h.weaken
  · exact h.put hput

/-- The thread sends a request. -/
theorem send (h : Alone i none s) (r : Http.Request)
    (next : Result Http.Response → Procedure Ending) :
    Alone i (some (next (s.transmit r).1.outcome)) (advance i (.ask (.send r) next) s) :=
  (h.acts (transmit_acts s r)).arrive _

end Alone

/-- A thread that is only just born. -/
theorem Sound.alone (hs : s.Sound (fun _ => True) none) :
    Alone s.born none { s with born := s.born + 1 } := by
  obtain ⟨hwhere, hstands⟩ := hs.unborn (Nat.le_refl s.born)
  have hborn : ({ s with born := s.born + 1 } : Session).Sound (fun _ => True) none :=
    hs.act .birth
  have hwhere' : Whereabouts s.born [] [] [] { s with born := s.born + 1 } :=
    ⟨hwhere.threads, hwhere.inner, hwhere.agenda, hwhere.deferred, hwhere.kept, hwhere.timers⟩
  refine ⟨hborn.beside (Nat.lt_succ_self s.born) hwhere', fun t ht => ?_, hstands, ?_⟩
  · exact Nat.ne_of_lt (hs.threads t ht).1
  · have hnone : jobsOf s.born s.jobs = [] := by
      simp [Session.jobs, hwhere.inner, hwhere.agenda, hwhere.deferred, hwhere.kept, hwhere.timers]
    exact hnone ▸ List.nil_subperm

variable {Φ : Option (Procedure Ending) → Session → Prop}

/-- A thread is on its way through some phases. -/
def Phased (i : Cache.CallerId) (Φ : Option (Procedure Ending) → Session → Prop) (s : Session) :
    Prop :=
  ∃ program, Alone i program s ∧ Φ program s

theorem Phased.own (h : Phased i Φ s) (htake : s.takeJob? = some (job, s')) (hown : job.Of i) :
    ∃ p, job = .resume i p ∧ Φ (some p) s ∧ Alone i none s' := by
  obtain ⟨program, halone, hphase⟩ := h
  obtain ⟨p, rfl, rfl, hnone⟩ := halone.own htake hown
  exact ⟨p, rfl, hphase, hnone⟩

/-- A thread stays on its way if its own work leads from phase to phase and what others do leaves
it in its phase. -/
theorem Phased.run {R : Session → Session → Prop} (hR : ∀ s s', R s s' → Step (fun _ => True) s s')
    (hown : ∀ s t p, s.takeJob? = some (.resume i p, t) → Alone i none t → Φ (some p) s →
      Phased i Φ (advance i p t))
    (hother : ∀ program s s', Alone i program s → R s s' → ¬ Does (Job.Of i) s s' →
      Φ program s → Φ program s')
    (h : Phased i Φ s) (hrun : Relation.ReflTransGen R s s') : Phased i Φ s' := by
  induction hrun with
  | refl => exact h
  | @tail t t' _ hstep ih =>
    by_cases hdoes : Does (Job.Of i) t t'
    · obtain ⟨job, u, htake, hparty, rfl⟩ := hdoes
      obtain ⟨p, rfl, hphase, hnone⟩ := ih.own htake hparty
      exact hown t u p htake hnone hphase
    · obtain ⟨program, halone, hphase⟩ := ih
      refine ⟨program, ?_, hother program t t' halone hstep hdoes hphase⟩
      exact (halone.step (hR t t' hstep)).resolve_right hdoes

end Bearer.Session
