import Mathlib.Algebra.GroupWithZero.Nat
import Mathlib.Algebra.Order.BigOperators.Group.List
import Mathlib.Algebra.Order.Group.Nat
import Bearer.Proofs.Cache.Starts
import Bearer.Proofs.Session.Uses

namespace Bearer

namespace Cache.State
variable {set : Settings} {s : State} {e : Event} {k : RefreshId}

theorem working_step (h : s.stage? k = some .working) (he : ∀ outcome, e ≠ .settle k outcome) :
    (step set e s).1.stage? k = some .working := by
  rcases stage_step set s e k with hs | ⟨stage, hturn, hs⟩
  · rw [hs, h]
  · exfalso
    cases hturn with
    | started ho =>
      have hnone := (stage?_eq_none s s.refreshes.length).mpr (Nat.le_refl _)
      rw [hnone] at h
      cases h
    | @settled _ outcome hk => exact he outcome rfl
    | launched hk | failed hk | installed hk | told hk hf | untold hk hf =>
      rw [h] at hk
      cases hk

theorem settled_step {outcome : Result Token} (h : s.stage? k = some .working) :
    (step set (.settle k outcome) s).1.stage? k = some (.settled outcome) := by
  simp [step, settle, h, stage?_setStage]

/-- A new cache sets nothing going unless it is called. -/
theorem sets?_default (hc : e.caller? = none) :
    (default : Session.Held).cache.sets? e = none := by
  cases e with
  | launch j => rfl
  | _ => exact sets?_of_no_call hc nofun

end Cache.State

namespace Session

variable {c : CredentialId} {k : Cache.RefreshId} {p : Procedure Ending}
  {s s' t : Session} {job : Job} {i : Cache.CallerId}
  {more : CredentialId → Cache.RefreshId → Nat}

/-- However a program ends, it does not end as the operation of this refresh. -/
def Elsewhere (c : CredentialId) (k : Cache.RefreshId) : Procedure Ending → Prop :=
  Procedure.Ends fun outcome => ∀ r, outcome ≠ .ok (.operation c k r)

open Classical in
/-- How many operations of this refresh a program may end as. -/
noncomputable def duty (c : CredentialId) (k : Cache.RefreshId) (p : Procedure Ending) : Nat :=
  if Elsewhere c k p then 0 else 1

/-- A thread that waits may go on in several ways, of which it takes one. -/
def Waiting.Elsewhere (c : CredentialId) (k : Cache.RefreshId) : Waiting → Prop
  | .token _ _ next => ∀ r, Session.Elsewhere c k (next r)
  | .operation _ next => ∀ r, Session.Elsewhere c k (next r)
  | .gate _ next => ∀ r, Session.Elsewhere c k (next r)

open Classical in
noncomputable def Waiting.duty (c : CredentialId) (k : Cache.RefreshId) (w : Waiting) : Nat :=
  if w.Elsewhere c k then 0 else 1

noncomputable def Job.duty (c : CredentialId) (k : Cache.RefreshId) : Job → Nat
  | .resume _ p => Session.duty c k p
  | .effect b _ e => if b = c ∧ e.run? = some k then 1 else 0
  | _ => 0

/-- What all the work that there is comes to. -/
def total (f : Job → Nat) (s : Session) : Nat := (s.jobs.map f).sum

/-- How many work for a refresh. -/
noncomputable def workers (s : Session) (c : CredentialId) (k : Cache.RefreshId) : Nat :=
  s.total (Job.duty c k) + (s.threads.map fun t => t.waiting.duty c k).sum

open Classical in
noncomputable def posts (s : Session) (c : CredentialId) (k : Cache.RefreshId) : Nat :=
  if (s.held? c).cache.stage? k = some .working then 1 else 0

/-- Nobody works for a refresh but one for each that is working. -/
def Staffed (s : Session) : Prop := ∀ c k, s.workers c k ≤ s.posts c k

/-- So many more may work for each refresh. -/
def Affords (s : Session) (more : CredentialId → Cache.RefreshId → Nat) : Prop :=
  ∀ c k, s.workers c k + more c k ≤ s.posts c k

/-- Whoever else there may be, a change leaves no refresh with too many workers. -/
def Bears (s s' : Session) : Prop :=
  ∀ c k n, s.workers c k + n ≤ s.posts c k → s'.workers c k + n ≤ s'.posts c k

theorem Bears.refl (s : Session) : Bears s s := fun _ _ _ h => h

theorem Bears.trans {s'' : Session} (h : Bears s s') (h' : Bears s' s'') : Bears s s'' :=
  fun c k n hn => h' c k n (h c k n hn)

theorem Bears.staffed (h : Bears s s') (hs : s.Staffed) : s'.Staffed :=
  fun c k => h c k 0 (hs c k)

theorem Bears.affords (h : Bears s s') (hs : s.Affords more) : s'.Affords more :=
  fun c k => h c k (more c k) (hs c k)

theorem Affords.staffed (h : s.Affords more) : s.Staffed :=
  fun c k => Nat.le_trans (Nat.le_add_right _ _) (h c k)

theorem Affords.mono (h : s.Affords more) {fewer : CredentialId → Cache.RefreshId → Nat}
    (hle : ∀ c k, fewer c k ≤ more c k) : s.Affords fewer :=
  fun c k => Nat.le_trans (Nat.add_le_add_left (hle c k) _) (h c k)

theorem Affords.same (h : s.Affords more) (hjobs : s'.jobs = s.jobs)
    (hthreads : s'.threads = s.threads) (hheld : s'.held = s.held) : s'.Affords more := by
  intro c k
  rw [workers, total, posts, held?, hjobs, hthreads, hheld]
  exact h c k

theorem Bears.of_held (hheld : ∀ c, (s'.held? c).cache = (s.held? c).cache)
    (hworkers : ∀ c k, s'.workers c k ≤ s.workers c k) : Bears s s' := by
  intro c k n h
  have hposts : s'.posts c k = s.posts c k := by rw [posts, posts, hheld]
  rw [hposts]
  exact Nat.le_trans (Nat.add_le_add_right (hworkers c k) n) h

theorem duty_le (p : Procedure Ending) : duty c k p ≤ 1 := by
  unfold duty
  split
  · exact Nat.zero_le 1
  · exact Nat.le_refl 1

theorem duty_eq_zero (h : Elsewhere c k p) : duty c k p = 0 := if_pos h

theorem duty_own (r : Result Token) : duty c k (.done (.ok (.operation c k r))) = 1 :=
  if_neg fun h => h r rfl

/-- Whatever a program is told, it does not get more to do. -/
theorem duty_next {q : Query} {next : Bearer.Reply q → Procedure Ending} (r : Bearer.Reply q) :
    duty c k (next r) ≤ duty c k (.ask q next) := by
  by_cases h : Elsewhere c k (.ask q next)
  · rw [duty_eq_zero (h r)]
    exact Nat.zero_le _
  · rw [duty, duty, if_neg h]
    split
    · exact Nat.zero_le 1
    · exact Nat.le_refl 1

theorem duty_waiting {α : Type} {w : Waiting} {next : α → Procedure Ending}
    (hw : w.Elsewhere c k ↔ ∀ r, Elsewhere c k (next r)) (r : α) :
    duty c k (next r) ≤ w.duty c k := by
  by_cases h : w.Elsewhere c k
  · rw [duty_eq_zero (hw.mp h r)]
    exact Nat.zero_le _
  · rw [Waiting.duty, if_neg h]
    exact duty_le _

theorem waiting_duty {q : Query} {next : Bearer.Reply q → Procedure Ending} {w : Waiting}
    (hw : (∀ r, Elsewhere c k (next r)) → w.Elsewhere c k) :
    w.duty c k ≤ duty c k (.ask q next) := by
  by_cases h : Elsewhere c k (.ask q next)
  · rw [Waiting.duty, if_pos (hw h)]
    exact Nat.zero_le _
  · rw [Waiting.duty, duty, if_neg h]
    split
    · exact Nat.zero_le 1
    · exact Nat.le_refl 1

theorem total_put {f : Job → Nat} (h : s.Puts job s') : s'.total f = s.total f + f job := by
  have hsum := ((h.jobs_perm).map f).sum_nat
  rw [total, total, hsum, List.map_cons, List.sum_cons, Nat.add_comm]

theorem total_take {f : Job → Nat} (h : s.takeJob? = some (job, t)) :
    t.total f + f job = s.total f := by
  have hsum := ((takeJob?_perm h).map f).sum_nat
  rw [total, total, hsum, List.map_cons, List.sum_cons, Nat.add_comm]

/-- What a cache wants done counts for no more than the refresh that it sets going. -/
theorem total_stepCache {f : Job → Nat} (b : CredentialId) (executor : Executor)
    (e : Cache.Event) (worth : Option Cache.RefreshId → Nat) (hnone : worth none = 0)
    (hf : ∀ effect, f (.effect b executor effect) = worth effect.run?) :
    (s.stepCache b executor e).total f = s.total f + worth ((s.held? b).cache.sets? e) := by
  have hsum (effects : List Cache.Effect) : (effects.map fun effect => worth effect.run?).sum =
      ((effects.filterMap Cache.Effect.run?).map fun k => worth (some k)).sum := by
    induction effects with
    | nil => rfl
    | cons effect effects ih =>
      rw [List.map_cons, List.sum_cons, ih, List.filterMap_cons]
      cases effect.run? with
      | none => simp only [hnone, Nat.zero_add]
      | some k => simp only [List.map_cons, List.sum_cons]
  rw [total, total, stepCache_jobs, List.map_append, List.sum_append, List.map_map, Nat.add_comm]
  refine congrArg _ ?_
  simp only [Function.comp_def, hf]
  rw [hsum, Cache.State.runs_step]
  cases (s.held? b).cache.sets? e with
  | none => exact hnone.symm
  | some k => exact Nat.add_zero _

theorem total_reclaim {f : Job → Nat} :
    ({ s with kept := [] }.doFirst s.kept).total f = s.total f :=
  ((jobs_reclaim s).map f).sum_nat

theorem workers_put (h : s.Puts job s') :
    s'.workers c k = s.workers c k + job.duty c k := by
  have hthreads : s'.threads = s.threads := by
    cases h <;> rfl
  rw [workers, workers, total_put h, hthreads]
  omega

theorem workers_take (h : s.takeJob? = some (job, t)) :
    t.workers c k + job.duty c k = s.workers c k := by
  have htotal := total_take (f := Job.duty c k) h
  have hthreads : t.threads = s.threads := by
    cases takes_of_takeJob h <;> rfl
  rw [workers, workers, hthreads]
  omega

theorem workers_block (w : Waiting) :
    (s.block i w).workers c k = s.workers c k + w.duty c k := by
  have htotal : (s.block i w).total (Job.duty c k) = s.total (Job.duty c k) := rfl
  have hthreads : (s.block i w).threads = s.threads ++ [⟨i, w⟩] := rfl
  rw [workers, workers, htotal, hthreads, List.map_append, List.sum_append, List.map_singleton,
    List.sum_singleton, Nat.add_assoc]

theorem workers_stepCache (b : CredentialId) (executor : Executor) (e : Cache.Event) :
    (s.stepCache b executor e).workers c k =
      s.workers c k + if b = c ∧ (s.held? b).cache.sets? e = some k then 1 else 0 := by
  have htotal := total_stepCache (s := s) (f := Job.duty c k) b executor e
    (fun run => if b = c ∧ run = some k then 1 else 0) (if_neg nofun) fun effect => rfl
  have hthreads : (s.stepCache b executor e).threads = s.threads := rfl
  rw [workers, workers, htotal, hthreads]
  omega

theorem duty_le_workers (hjob : job ∈ s.jobs) : job.duty c k ≤ s.workers c k :=
  Nat.le_trans (List.le_sum_of_mem (List.mem_map_of_mem hjob)) (Nat.le_add_right _ _)

theorem waiting_duty_le_workers {thread : Thread} (hthread : thread ∈ s.threads) :
    thread.waiting.duty c k ≤ s.workers c k := by
  have hmem := List.mem_map_of_mem (f := fun t : Thread => t.waiting.duty c k) hthread
  exact Nat.le_trans (List.le_sum_of_mem hmem) (Nat.le_add_left _ _)

theorem working_of_posts (h : 0 < s.posts c k) :
    (s.held? c).cache.stage? k = some .working := by
  by_contra hidle
  rw [posts, if_neg hidle] at h
  exact Nat.lt_irrefl 0 h

/-- A refresh that somebody works for is working. -/
theorem Staffed.working (h : s.Staffed) (hone : 0 < s.workers c k) :
    (s.held? c).cache.stage? k = some .working :=
  working_of_posts (Nat.lt_of_lt_of_le hone (h c k))

/-- Whoever has a refresh to settle is at work for it. -/
theorem Staffed.at_work (h : s.Staffed) (hjob : job ∈ s.jobs) (hduty : job.duty c k = 1) :
    (s.held? c).cache.stage? k = some .working := by
  have hone := duty_le_workers (c := c) (k := k) hjob
  rw [hduty] at hone
  exact h.working hone

/-- A cache goes on, but does not settle the refresh. Only a cache that there is may be called. -/
theorem bears_cache (b : CredentialId) (executor : Executor) {e : Cache.Event} {n : Nat}
    (he : b = c → ∀ outcome, e ≠ .settle k outcome) (hb : b < s.held.length ∨ e.caller? = none)
    (h : s.workers c k + n ≤ s.posts c k) :
    (s.stepCache b executor e).workers c k + n ≤ (s.stepCache b executor e).posts c k := by
  rw [workers_stepCache]
  by_cases hbc : b = c
  · subst hbc
    by_cases hlt : b < s.held.length
    · have hcache : ((s.stepCache b executor e).held? b).cache =
          (Cache.step ⟨(s.held? b).credential.logging⟩ e (s.held? b).cache).1 := by
        rw [held?_stepCache, if_pos ⟨rfl, hlt⟩]
      rw [posts, hcache]
      rw [posts] at h
      by_cases hsets : (s.held? b).cache.sets? e = some k
      · obtain ⟨hbefore, hafter⟩ :=
          Cache.State.working_of_sets ⟨(s.held? b).credential.logging⟩ hsets
        rw [if_pos ⟨rfl, hsets⟩, if_pos hafter]
        rw [if_neg hbefore] at h
        omega
      · rw [if_neg fun hand => hsets hand.2]
        by_cases hworking : (s.held? b).cache.stage? k = some .working
        · rw [if_pos (Cache.State.working_step hworking (he rfl))]
          rwa [if_pos hworking] at h
        · rw [if_neg hworking] at h
          omega
    · have hquiet : (s.held? b).cache.sets? e = none := by
        rw [held?_eq_default hlt]
        exact Cache.State.sets?_default (hb.resolve_left hlt)
      have hposts : (s.stepCache b executor e).posts b k = s.posts b k := by
        have hnone : ¬ (b = b ∧ b < s.held.length) := fun hand => hlt hand.2
        rw [posts, posts, held?_stepCache, if_neg hnone]
      rw [hquiet, hposts, if_neg nofun]
      exact h
  · have hposts : (s.stepCache b executor e).posts c k = s.posts c k := by
      have hother : ¬ (c = b ∧ c < s.held.length) := fun hand => hbc hand.1.symm
      rw [posts, posts, held?_stepCache, if_neg hother]
    rw [if_neg fun hand => hbc hand.1, hposts]
    exact h

theorem bears_stepCache (b : CredentialId) (executor : Executor) {e : Cache.Event}
    (he : ∀ j outcome, e ≠ .settle j outcome) (hb : b < s.held.length ∨ e.caller? = none) :
    Bears s (s.stepCache b executor e) :=
  fun _ k _ h => bears_cache b executor (fun _ => he k) hb h

theorem posts_put (h : s.Puts job s') : s'.posts c k = s.posts c k := by
  rw [posts, posts, held?, held?, h.held]

theorem Affords.put (h : s.Affords more) (hput : s.Puts job s')
    (hjob : ∀ c k, job.duty c k ≤ more c k) : s'.Staffed := by
  intro c k
  rw [workers_put hput, posts_put hput]
  exact Nat.le_trans (Nat.add_le_add_left (hjob c k) _) (h c k)

theorem Affords.block (h : s.Affords more) {w : Waiting}
    (hw : ∀ c k, w.duty c k ≤ more c k) : (s.block i w).Staffed := by
  intro c k
  rw [workers_block]
  exact Nat.le_trans (Nat.add_le_add_left (hw c k) _) (h c k)

/-- Work that is taken out leaves room for itself. -/
theorem Staffed.take (h : s.Staffed) (htake : s.takeJob? = some (job, t)) :
    t.Affords fun c k => job.duty c k := by
  intro c k
  have hposts : t.posts c k = s.posts c k := by rw [posts, posts, takeJob?_held? htake]
  rw [workers_take htake, hposts]
  exact h c k

/-- An operation ends, and with it the work for its refresh. -/
theorem staffed_settle {outcome : Result Token}
    (h : s.Affords fun b j => duty b j (.done (.ok (.operation c k outcome)))) :
    (s.stepCache c .direct (.settle k outcome)).Staffed := by
  intro b j
  by_cases hown : c = b ∧ j = k
  · obtain ⟨rfl, rfl⟩ := hown
    have hone : s.workers c j + duty c j (.done (.ok (.operation c j outcome))) ≤ s.posts c j :=
      h c j
    rw [duty_own] at hone
    have hworking : (s.held? c).cache.stage? j = some .working :=
      working_of_posts (Nat.zero_lt_of_lt hone)
    rw [workers_stepCache, if_neg nofun]
    rw [posts, if_pos hworking] at hone
    omega
  · have hother := Nat.le_trans (Nat.le_add_right _ _) (h b j)
    refine bears_cache (n := 0) c .direct (fun hcb outcome heq => ?_) (.inr rfl) hother
    cases heq
    exact hown ⟨hcb, rfl⟩

/-- An operation that ends settles its refresh. -/
theorem Staffed.settles (h : s.Staffed) {outcome : Result Token}
    (htake : s.takeJob? = some (.resume i (.done (.ok (.operation c k outcome))), t)) :
    ((t.stepCache c .direct (.settle k outcome)).held? c).cache.stage? k =
      some (.settled outcome) := by
  have hworking : (t.held? c).cache.stage? k = some .working := by
    have hone := workers_take (c := c) (k := k) htake
    rw [Job.duty, duty_own] at hone
    rw [takeJob?_held? htake]
    exact h.working (hone ▸ Nat.succ_pos _)
  have hc : c < t.held.length := by
    by_contra hnone
    rw [held?_eq_default hnone] at hworking
    cases hworking
  rw [held?_stepCache, if_pos ⟨rfl, hc⟩]
  exact Cache.State.settled_step hworking

section Programs
variable {d : Discipline} {replies : List Reply} {start : View}

theorem bears_stride (h : Stride d replies s t) : Bears s t := by
  cases h with
  | reading | note => exact .of_held (fun _ => rfl) fun _ _ => Nat.le_refl _
  | create credential htoken =>
    refine fun c k n h => Nat.le_trans h ?_
    by_cases hc : c = s.held.length
    · have hnone : s.posts c k = 0 := by
        rw [posts, held?_eq_default (Nat.not_lt.mpr (Nat.le_of_eq hc.symm))]
        exact if_neg nofun
      rw [hnone]
      exact Nat.zero_le _
    · exact Nat.le_of_eq (by rw [posts, posts, held?_create, if_neg hc])
  | redirect c source =>
    refine .of_held (fun b => ?_) fun _ _ => Nat.le_refl _
    rw [held?_modifyHeld]
    split <;> rfl
  | warn c failure => exact bears_stepCache c .direct nofun (.inr rfl)

theorem bears_strides (h : Strides d replies s t) : Bears s t := by
  induction h with
  | refl => exact .refl s
  | tail _ hstride ih => exact ih.trans (bears_stride hstride)

theorem duty_leads {p' : Procedure Ending} (h : p.Leads p') : duty c k p' ≤ duty c k p := by
  induction h with
  | refl => exact Nat.le_refl _
  | next r _ ih => exact Nat.le_trans ih (duty_next r)

theorem staffed_send {v : View} (hs : Tidy d replies v s) {r : Http.Request}
    {next : Result Http.Response → Procedure Ending}
    (h : s.Affords fun c k => duty c k (.ask (.send r) next)) :
    (advance i (.ask (.send r) next) s).Staffed := by
  obtain ⟨reply, hadvance⟩ := advance_send hs.plain hs.upcoming i r next
  have hsent : Affords { s.observe (.sent r) with replies := replies.drop (s.requests.length + 1) }
      fun c k => duty c k (.ask (.send r) next) := h.same rfl rfl rfl
  rw [hadvance]
  rcases arrive_cases { s.observe (.sent r) with replies := replies.drop (s.requests.length + 1) }
    reply (.resume i (next (answerAt replies s.requests.length r))) with ⟨-, hlost⟩ | hput
  · rw [hlost]
    exact hsent.staffed
  · exact hsent.put hput fun c k => duty_next (q := .send r) _

theorem staffed_call (h : s.Affords more) {w : Waiting} (hw : ∀ c k, w.duty c k ≤ more c k)
    (hc : c < (s.view replies).table.length) (executor : Executor) {e : Cache.Event}
    (he : e.caller? = some i) : ((s.block i w).stepCache c executor e).Staffed := by
  rw [view_length] at hc
  have hsettle : ∀ j outcome, e ≠ .settle j outcome := by
    rintro j outcome rfl
    cases he
  have hbears : Bears (s.block i w) ((s.block i w).stepCache c executor e) :=
    bears_stepCache c executor hsettle (.inl hc)
  exact hbears.staffed (h.block hw)

theorem staffed_done {outcome : Result Ending} (h : s.Affords fun c k => duty c k (.done outcome)) :
    (advance i (.done outcome) s).Staffed := by
  rcases outcome with failure | e
  · exact h.staffed
  · cases e with
    | operation c k outcome => exact staffed_settle h
    | listener c k failure =>
      have hput : s.Puts (.listenerDone c k failure) (s.doNext (.listenerDone c k failure)) := .next
      exact h.put hput fun _ _ => Nat.zero_le _
    | call | nothing => exact h.staffed

/-- What a program does that rests leaves its refresh with one worker at most. -/
theorem staffed_rest {v : View} (hs : Tidy d replies v s) (hrests : p.Rests)
    (hp : d.Keeps start (s.view replies) p) (h : s.Affords fun c k => duty c k p) :
    (advance i p s).Staffed := by
  cases p with
  | done outcome => exact staffed_done h
  | ask q next =>
    cases q with
    | send r => exact staffed_send hs h
    | read path => exact h.put .later fun _ _ => duty_next (q := .read path) (s.folder.read? path)
    | rest => exact h.put .later fun _ _ => duty_next (q := .rest) ()
    | fetch c executor signal =>
      obtain ⟨-, ⟨-, hc, -⟩, -⟩ := hp
      obtain ⟨t, offsets, first, second, rfl, -, -, hadvance⟩ :=
        advance_fetch_cases s i c executor signal next
      have hduty (b k) : Waiting.duty b k (.token c signal fun r => next (givenToken r)) ≤
          duty b k (.ask (.fetch c executor signal) next) :=
        waiting_duty fun hnext r => hnext (givenToken r)
      have hread : Affords { s with offsets }
          fun b k => duty b k (.ask (.fetch c executor signal) next) := h.same rfl rfl rfl
      rw [hadvance]
      exact staffed_call hread hduty hc executor rfl
    | refresh c signal =>
      obtain ⟨-, ⟨-, hc, -⟩, -⟩ := hp
      have hduty (b k) : Waiting.duty b k (.token c signal fun r => next (r.map fun _ => ())) ≤
          duty b k (.ask (.refresh c signal) next) :=
        waiting_duty fun hnext r => hnext (r.map fun _ => ())
      exact staffed_call h hduty hc .direct rfl
    | refreshIfExpired c signal =>
      obtain ⟨-, ⟨-, hc, -⟩, -⟩ := hp
      obtain ⟨t, offsets, reading, rfl, -, hadvance⟩ :=
        advance_refreshIfExpired_cases s i c signal next
      have hduty (b k) : Waiting.duty b k (.token c signal fun r => next (r.map fun _ => ())) ≤
          duty b k (.ask (.refreshIfExpired c signal) next) :=
        waiting_duty fun hnext r => hnext (r.map fun _ => ())
      have hread : Affords { s with offsets }
          fun b k => duty b k (.ask (.refreshIfExpired c signal) next) := h.same rfl rfl rfl
      rw [hadvance]
      exact staffed_call hread hduty hc .direct rfl
    | _ => exact hrests.elim

theorem staffed_advance {v : View} (hs : Tidy d replies v s)
    (hp : d.Keeps start (s.view replies) p) (h : s.Affords fun c k => duty c k p) :
    (advance i p s).Staffed := by
  obtain ⟨t, p', hstrides, hleads, hrests, hkeeps, hadvance⟩ := advance_course i hp
  rw [hadvance]
  have hafter : t.Affords fun c k => duty c k p := (bears_strides hstrides).affords h
  exact staffed_rest (hs.strides hstrides) hrests hkeeps
    (hafter.mono fun _ _ => duty_leads hleads)

theorem elsewhere_attempt {α : Type} {f : Result α → Ending} (q : Procedure α)
    (hf : ∀ outcome r, f outcome ≠ .operation c k r) : Elsewhere c k (f <$> q.attempt) := by
  refine Procedure.Ends.bind (fun outcome _ => ?_) ?_ (Procedure.ends_attempt q)
  · exact fun r heq => hf outcome r (Except.ok.inj heq)
  · rintro e ⟨outcome, heq⟩
    cases heq

theorem duty_operation (b : CredentialId) (j : Cache.RefreshId) :
    duty c k (Ending.operation b j <$> (Credential.requestToken b).attempt) ≤
      if b = c ∧ (Cache.Effect.run j).run? = some k then 1 else 0 := by
  split
  · exact duty_le _
  · next hother =>
    refine Nat.le_of_eq (duty_eq_zero (elsewhere_attempt _ fun outcome r heq => hother ?_))
    cases heq
    exact ⟨rfl, rfl⟩

theorem sum_filter_le {α : Type} {l : List α} {f : α → Nat} {P : α → Bool} {a : α} (ha : a ∈ l)
    (hP : P a = false) : ((l.filter P).map f).sum + f a ≤ (l.map f).sum := by
  have hle (l : List α) : ((l.filter P).map f).sum ≤ (l.map f).sum := by
    induction l with
    | nil => exact Nat.le_refl _
    | cons b l ih => by_cases hb : P b = true <;> simp [hb] <;> omega
  induction l with
  | nil => cases ha
  | cons b l ih =>
    rcases List.mem_cons.mp ha with rfl | ha
    · have hrest := hle l
      simp only [List.filter_cons, hP, List.map_cons, List.sum_cons]
      simp only [Bool.false_eq_true, if_false]
      omega
    · have hrest := ih ha
      by_cases hb : P b = true <;> simp [hb] <;> omega

/-- A thread that gets its answer goes on in one of its ways. -/
theorem workers_answer (i : Cache.CallerId) (r : Result (Option Token)) :
    (s.answer i r).workers c k ≤ s.workers c k := by
  unfold Session.answer
  split
  · next id b signal next hfound =>
    have hmem : ⟨id, .token b signal next⟩ ∈ s.threads := List.mem_of_find?_eq_some hfound
    have hid : id = i := by simpa using List.find?_some hfound
    have hsum := sum_filter_le (f := fun t : Thread => t.waiting.duty c k)
      (P := fun t => t.id ≠ i) hmem (by simp [hid])
    dsimp only at hsum
    have hduty : duty c k (next r) ≤ Waiting.duty c k (.token b signal next) :=
      duty_waiting Iff.rfl r
    rw [workers_put (Puts.next (s := s.forget i))]
    have htotal : (s.forget i).total (Job.duty c k) = s.total (Job.duty c k) := rfl
    have hthreads : (s.forget i).threads = s.threads.filter (fun t => t.id ≠ i) := rfl
    rw [workers, workers, htotal, hthreads, Job.duty]
    omega
  · exact Nat.le_refl _

theorem posts_answer (i : Cache.CallerId) (r : Result (Option Token)) :
    (s.answer i r).posts c k = s.posts c k := by
  unfold Session.answer
  split <;> rfl

/-- What a cache wants done is done: for a refresh that it has set going, an operation starts. -/
theorem staffed_effect (hd : d.Operates) (hs : Tidy d replies (s.view replies) s)
    (hpart : d.takesPart c) (executor : Executor) (effect : Cache.Effect)
    (h : s.Affords fun b j => Job.duty b j (.effect c executor effect)) :
    (s.perform (.effect c executor effect)).Staffed := by
  have hput {job : Job} {s' : Session} (hduty : ∀ b j, job.duty b j = 0) (hput : s.Puts job s') :
      s'.Staffed := h.put hput fun b j => (hduty b j).symm ▸ Nat.zero_le _
  cases effect with
  | answer i r =>
    intro b j
    show (s.answer i r).workers b j ≤ (s.answer i r).posts b j
    rw [posts_answer]
    exact Nat.le_trans (workers_answer i r) (h.staffed b j)
  | log entry => exact h.staffed
  | run k =>
    have hbirth : Tidy d replies (s.view replies) { s with born := s.born + 1 } :=
      hs.change rfl rfl rfl rfl fun _ hjob => .inl hjob
    have hoperation : s.Affords fun b j =>
        duty b j (Ending.operation c k <$> (Credential.requestToken c).attempt) :=
      h.mono fun _ _ => duty_operation c k
    exact staffed_advance hbirth (hd (s.view replies) c k hs.good hpart)
      (hoperation.same rfl rfl rfl)
  | hold k =>
    cases executor with
    | manual => exact hput (fun _ _ => rfl) (.kept ⟨c, k, rfl⟩)
    | _ => exact hput (fun _ _ => rfl) .later
  | due k => exact hput (fun _ _ => rfl) .next
  | notify k l =>
    show (s.callListener c k l).Staffed
    rw [hs.callListener_eq]
    exact hput (fun _ _ => rfl) .next

/-- Whatever work is done, it leaves each refresh with one worker at most. -/
theorem staffed_work (hd : d.Operates) (hs : Orderly d replies (s.view replies) s)
    (h : s.Staffed) (htake : s.takeJob? = some (job, t)) : (t.perform job).Staffed := by
  have hview : t.view replies = s.view replies := view_take htake
  have htidy : Tidy d replies (t.view replies) t := hview.symm ▸ hs.toTidy.take htake
  have ht := h.take htake
  cases job with
  | resume i p =>
    have hkeeps := (idle_of_resume (hs.everyone.position i) htake).2 _ (.refl hs.good)
    exact staffed_advance htidy (hview.symm ▸ hkeeps) ht
  | launch c k =>
    exact (bears_stepCache c .direct (e := .launch k) nofun (.inr rfl)).staffed ht.staffed
  | process c k =>
    exact (bears_stepCache c .direct (e := .process k) nofun (.inr rfl)).staffed ht.staffed
  | listenerDone c k failure =>
    exact (bears_stepCache c .direct (e := .listenerDone k failure) nofun (.inr rfl)).staffed
      ht.staffed
  | effect c executor effect =>
    exact staffed_effect hd htidy (hs.jobs _ (takes_of_takeJob htake).mem c rfl) executor effect ht

theorem Pristine.staffed (h : s.Pristine) : s.Staffed := by
  intro c k
  rw [workers, total, h.jobs, h.threads]
  exact Nat.zero_le _

/-- Programs that are no operations leave each refresh with one worker at most. -/
theorem staffed_use {programs : Procedure Ending → Prop} (hd : d.Operates)
    (hprograms : ∀ p, programs p → ∀ v, d.good v → d.Keeps v v p)
    (hcalls : ∀ p, programs p → ∀ c k, Elsewhere c k p)
    (hs : Orderly d replies (s.view replies) s) (h : s.Staffed) (huse : Use programs s s') :
    s'.Staffed := by
  cases huse with
  | work htake => exact staffed_work hd hs h htake
  | @start p hp =>
    have hbirth : Tidy d replies (s.view replies) { s with born := s.born + 1 } :=
      hs.change rfl rfl rfl rfl fun _ hjob => .inl hjob
    refine staffed_advance hbirth (hprograms p hp _ hs.good) fun c k => ?_
    show s.workers c k + duty c k p ≤ s.posts c k
    rw [duty_eq_zero (hcalls p hp c k)]
    exact h c k
  | signal aborted => exact h
  | @giveUp i c name next ht reason =>
    exact (bears_stepCache c .direct (e := .abort i reason) nofun (.inr rfl)).staffed h
  | reclaim =>
    intro c k
    show total _ _ + _ ≤ _
    rw [total_reclaim]
    exact h c k
  | world w hw => exact h

theorem staffed_uses {programs : Procedure Ending → Prop} (hd : d.Operates)
    (hprograms : ∀ p, programs p → ∀ v, d.good v → d.Keeps v v p)
    (hcalls : ∀ p, programs p → ∀ c k, Elsewhere c k p)
    (hs : Orderly d replies (s.view replies) s) (h : s.Staffed) (huses : Uses programs s s') :
    s'.Staffed := by
  induction huses with
  | refl => exact h
  | tail huses huse ih =>
    exact staffed_use hd hprograms hcalls (lands_uses hd hprograms hs huses).orderly ih huse

end Programs

end Session
end Bearer
