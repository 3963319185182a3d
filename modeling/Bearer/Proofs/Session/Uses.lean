import Bearer.Proofs.Session.Orderly

namespace Bearer.Session

open Relation (ReflTransGen)

variable {i : Cache.CallerId} {s s' t : Session} {job : Job}

section Work
variable {d : Discipline} {replies : List Reply} {v : View} {p : Procedure Ending}

/-- The operations of refreshes keep the discipline. -/
def Discipline.Operates (d : Discipline) : Prop :=
  ∀ v c k, d.good v → d.takesPart c →
    d.Keeps v v (Ending.operation c k <$> (Credential.requestToken c).attempt)

theorem view_take (htake : s.takeJob? = some (job, t)) : t.view replies = s.view replies := by
  have hheld := takeJob?_held htake
  have htrace : t.trace = s.trace := by
    cases takes_of_takeJob htake <;> rfl
  rw [view, view, contacts, contacts, requests, requests, htrace, hheld]

theorem Tidy.take (h : Tidy d replies v s) (htake : s.takeJob? = some (job, t)) :
    Tidy d replies v t := by
  have htakes := takes_of_takeJob htake
  have hjobs : ∀ j ∈ t.jobs, j ∈ s.jobs ∨ ∀ c, j.credential? = some c → d.takesPart c :=
    fun j hj => .inl (htakes.mem_jobs hj)
  cases htakes <;> exact h.change rfl rfl rfl rfl hjobs

theorem Orderly.take (h : Orderly d replies v s) (htake : s.takeJob? = some (job, t))
    (hjob : job.party? = none) : Orderly d replies v t := by
  refine ⟨h.toTidy.take htake, h.everyone.spared (fun i => spares_take htake (by simp [hjob])) ?_⟩
  exact Nat.le_of_eq (takes_of_takeJob htake).born.symm

theorem Orderly.put (h : Orderly d replies v s) (hput : s.Puts job s')
    (hjob : job.party? = none) (hpart : ∀ c, job.credential? = some c → d.takesPart c) :
    Orderly d replies v s' := by
  have heveryone := h.everyone.spared (fun i => spares_put hput (by simp [hjob]))
    (Nat.le_of_eq hput.born.symm)
  have hjobs : ∀ j ∈ s'.jobs, j ∈ s.jobs ∨ ∀ c, j.credential? = some c → d.takesPart c := by
    intro j hj
    rcases hput.mem_jobs hj with rfl | hj
    · exact .inr hpart
    · exact .inl hj
  refine ⟨?_, heveryone⟩
  cases hput <;> exact h.change rfl rfl rfl rfl hjobs

/-- Only threads that are born have work. -/
theorem Everyone.born_of_take {rules : Rules} (h : Everyone rules s)
    (htake : s.takeJob? = some (job, t)) (hparty : job.party? = some i) : i < t.born := by
  have htakes := takes_of_takeJob htake
  refine Nat.lt_of_not_le fun hle => ?_
  have hunborn := (h.unborn i (htakes.born ▸ hle)).jobs
  exact absurd hparty (jobsOf_eq_nil.mp hunborn _ htakes.mem)

theorem lands_resume (h : Orderly d replies (s.view replies) s)
    (htake : s.takeJob? = some (.resume i p, t)) : Lands d replies s (advance i p t) := by
  obtain ⟨hidle, hgoing⟩ := idle_of_resume (h.everyone.position i) htake
  have hview : t.view replies = s.view replies := view_take htake
  have htakes := takes_of_takeJob htake
  have hi : i < t.born := h.everyone.born_of_take htake rfl
  have hothers := (h.everyone.others i).spared
    (fun j hj => spares_take htake (by simpa [Job.party?] using Ne.symm hj))
    (Nat.le_of_eq htakes.born.symm)
  have ht : Orderly d replies (s.view replies) t :=
    ⟨h.toTidy.take htake, hothers.everyone hi (.idle hidle)⟩
  have hkeeps := hgoing _ (.refl h.good)
  rw [← hview] at hkeeps ht
  have hlands := lands_advance ht hidle hi hkeeps
  rw [hview] at hlands
  exact ⟨hlands.1, hlands.2⟩

theorem lands_answer (h : Orderly d replies (s.view replies) s) {c : CredentialId}
    {executor : Executor} {r : Result (Option Token)}
    (htake : s.takeJob? = some (.effect c executor (.answer i r), t)) :
    Lands d replies s (t.answer i r) := by
  have hview : (t.answer i r).view replies = s.view replies := by
    rw [← view_take htake]
    unfold Session.answer
    split <;> rfl
  have htakes := takes_of_takeJob htake
  have hi : i < t.born := h.everyone.born_of_take htake rfl
  have hborn : (t.answer i r).born = t.born := by
    unfold Session.answer
    split <;> rfl
  have hothers : Others (d.rules (s.view replies)) i (t.answer i r) :=
    ((h.everyone.others i).spared
      (fun j hj => spares_take htake (by simpa [Job.party?] using Ne.symm hj))
      (Nat.le_of_eq htakes.born.symm)).spared (fun j hj => spares_answer (Ne.symm hj))
      (Nat.le_of_eq hborn.symm)
  have hposition : Position (d.rules (s.view replies)) i (t.answer i r) := by
    refine position_answer (h.everyone.position i) htake fun signal next hwaits hgiven => ?_
    obtain ⟨-, -, hkeeps⟩ := hwaits
    refine fun v' hlater => hkeeps r v' hlater fun u hu => ?_
    subst hu
    exact d.token_mono hlater.contacts hgiven
  have htidy : Tidy d replies (s.view replies) (t.answer i r) := by
    have ht := h.toTidy.take htake
    unfold Session.answer
    split
    · refine ht.change rfl rfl rfl rfl fun j hj => ?_
      rcases Puts.next.mem_jobs hj with rfl | hj
      · exact .inr fun c hc => absurd hc (Option.some_ne_none c).symm
      · exact .inl hj
    · exact ht
  exact .of_view ⟨htidy, hothers.everyone (hborn ▸ hi) hposition⟩ hview

/-- Whatever work is done, it leaves a session in order. -/
theorem lands_work (hd : d.Operates) (h : Orderly d replies (s.view replies) s)
    (htake : s.takeJob? = some (job, t)) : Lands d replies s (t.perform job) := by
  have hview : t.view replies = s.view replies := view_take htake
  have hpart : ∀ c, job.credential? = some c → d.takesPart c :=
    h.jobs job (takes_of_takeJob htake).mem
  have hput {job' : Job} {s' : Session} (hparty : job.party? = none) (hput : t.Puts job' s')
      (hparty' : job'.party? = none) (hsame : job'.credential? = job.credential?) :
      Lands d replies s s' :=
    .of_view ((h.take htake hparty).put hput hparty' (hsame ▸ hpart)) (hput.view.trans hview)
  have hstep {c : CredentialId} {e : Cache.Event} (hparty : job.party? = none)
      (hc : job.credential? = some c) (hparty' : e.party? = none)
      (he : ∀ k u, e = .settle k (.ok u) → d.token (s.view replies).contacts c u) :
      Lands d replies s (t.stepCache c .direct e) :=
    .of_view ((h.take htake hparty).stepCache (hpart c hc) .direct hparty' he)
      ((view_stepCache c .direct e).trans hview)
  cases job with
  | resume i p => exact lands_resume h htake
  | launch c k => exact hstep (e := .launch k) rfl rfl rfl nofun
  | process c k => exact hstep (e := .process k) rfl rfl rfl nofun
  | listenerDone c k failure => exact hstep (e := .listenerDone k failure) rfl rfl rfl nofun
  | effect c executor effect =>
    cases effect with
    | answer i r => exact lands_answer h htake
    | log entry =>
      have ht := h.take htake rfl
      exact .of_view (ht.observe (o := .logged entry) (d.sees_logged _ entry) rfl) hview
    | run k =>
      have ht : Orderly d replies (t.view replies) t := hview ▸ h.take htake rfl
      have hspawn := lands_spawn ht (hd _ c k ht.good (hpart c rfl))
      exact ⟨hspawn.orderly, hview ▸ hspawn.later⟩
    | hold k =>
      cases executor with
      | manual => exact hput rfl (.kept ⟨c, k, rfl⟩) rfl rfl
      | _ => exact hput rfl .later rfl rfl
    | due k => exact hput rfl .next rfl rfl
    | notify k l =>
      show Lands d replies s (t.callListener c k l)
      rw [(h.toTidy.take htake).callListener_eq]
      exact hput rfl .next rfl rfl

end Work

/-- One piece of work, or one thing that is done from outside by those who use the
credentials: they start such programs, and give up only under the signals they have named. -/
inductive Use (programs : Procedure Ending → Prop) (s : Session) : Session → Prop
  | work {job : Job} {t : Session} (h : s.takeJob? = some (job, t)) :
      Use programs s (t.perform job)
  | start {p : Procedure Ending} (hp : programs p) : Use programs s (s.spawn p)
  | signal (aborted : List (Signal × Thrown)) : Use programs s { s with aborted }
  /-- A caller gives up that waits under a signal. -/
  | giveUp {i : Cache.CallerId} {c : CredentialId} {name : Signal}
      {next : Result (Option Token) → Procedure Ending}
      (h : ⟨i, .token c (some name) next⟩ ∈ s.threads) (reason : Thrown) :
      Use programs s (s.stepCache c .direct (.abort i reason))
  | reclaim : Use programs s ({ s with kept := [] }.doFirst s.kept)
  /-- The world around changes, but for the answers to come. -/
  | world (w : World) (h : w.replies = s.replies) : Use programs s (w.around s)

abbrev Uses (programs : Procedure Ending → Prop) : Session → Session → Prop :=
  ReflTransGen (Use programs)

theorem uses_work {programs : Procedure Ending → Prop} (n : Nat) (s : Session) :
    Uses programs s (s.work n) := by
  induction n generalizing s with
  | zero => exact .refl
  | succ n ih =>
    unfold work
    split
    · exact .refl
    · next job t htake => exact .head (.work htake) (ih _)

section Use
variable {d : Discipline} {replies : List Reply} {programs : Procedure Ending → Prop}

theorem lands_use (hd : d.Operates) (hprograms : ∀ p, programs p → ∀ v, d.good v → d.Keeps v v p)
    (h : Orderly d replies (s.view replies) s) (huse : Use programs s s') :
    Lands d replies s s' := by
  cases huse with
  | work htake => exact lands_work hd h htake
  | start hp => exact lands_spawn h (hprograms _ hp _ h.good)
  | signal aborted =>
    refine .of_view ⟨h.change rfl rfl rfl rfl fun _ hjob => .inl hjob, ?_⟩ rfl
    exact h.everyone.spared (fun _ => .of_held rfl rfl .rfl) (Nat.le_refl _)
  | @giveUp i c name next ht reason =>
    have hi : i < s.born := by
      refine Nat.lt_of_not_le fun hle => ?_
      have hnone := List.filter_eq_nil_iff.mp (h.everyone.unborn i hle).threads _ ht
      exact hnone (by simp)
    have hpart : d.takesPart c := by
      cases h.everyone.position i with
      | idle hidle => exact absurd (List.filter_eq_nil_iff.mp hidle.threads _ ht) (by simp)
      | going _ hthreads => exact absurd (List.filter_eq_nil_iff.mp hthreads _ ht) (by simp)
      | waiting hnext hthreads | answered hnext _ hthreads =>
        have hmem : ⟨i, .token c (some name) next⟩ ∈ s.threads.filter (fun t => t.id = i) :=
          List.mem_filter.mpr ⟨ht, by simp⟩
        rw [hthreads, List.mem_singleton] at hmem
        cases hmem
        exact hnext.1
    have hlawful := h.lawful c .direct (e := .abort i reason) nofun
    have hothers := (h.everyone.others i).stepCache c .direct (e := .abort i reason)
      (fun j hj => by simpa [Cache.Event.party?] using Ne.symm hj) hlawful
    have hposition := position_abort c .direct (h.everyone.position i) ht reason
    exact .of_view ⟨h.toTidy.stepCache hpart .direct nofun, hothers.everyone hi hposition⟩
      (view_stepCache c .direct _)
  | reclaim =>
    refine .of_view ⟨h.change rfl rfl rfl rfl fun job hjob => .inl ?_, ?_⟩ rfl
    · rw [mem_jobs] at hjob ⊢
      simp only [doFirst, List.mem_append] at hjob
      grind
    · exact h.everyone.spared (fun _ => spares_reclaim) (Nat.le_refl _)
  | world w hw =>
    refine .of_view ⟨h.change rfl rfl hw rfl fun _ hjob => .inl hjob, ?_⟩ rfl
    exact h.everyone.spared (fun _ => .of_held rfl rfl .rfl) (Nat.le_refl _)

/-- If all programs keep the discipline, every run does. -/
theorem lands_uses (hd : d.Operates)
    (hprograms : ∀ p, programs p → ∀ v, d.good v → d.Keeps v v p)
    (h : Orderly d replies (s.view replies) s) (huses : Uses programs s s') :
    Lands d replies s s' := by
  induction huses with
  | refl => exact .of_view h rfl
  | tail _ huse ih => exact ih.trans (lands_use hd hprograms ih.orderly huse)

end Use

/-- Nothing has been done with the credentials yet. -/
structure Pristine (s : Session) : Prop where
  plain : s.wraps = false
  threads : s.threads = []
  jobs : s.jobs = []
  trace : s.trace = []
  caches : ∀ c, (s.held? c).cache = .initial (s.held? c).credential.token
  deaf : ∀ c, (s.held? c).listeners = []

theorem pristine_session (w : World) (table : List Credential) (born : Nat) :
    Pristine { w.session with
      born, held := table.map fun credential => { credential, cache := .initial credential.token } }
    where
  plain := rfl
  threads := rfl
  jobs := rfl
  trace := rfl
  caches c := by
    simp only [held?, List.getD_eq_getElem?_getD, List.getElem?_map]
    cases table[c]? <;> rfl
  deaf c := by
    simp only [held?, List.getD_eq_getElem?_getD, List.getElem?_map]
    cases table[c]? <;> rfl

theorem Pristine.idle (h : s.Pristine) (i : Cache.CallerId) : Idle i s where
  threads := by rw [h.threads]; rfl
  jobs := by rw [h.jobs]; rfl
  stands c k := by rw [h.caches]; rfl

theorem Pristine.orderly {d : Discipline} (h : s.Pristine)
    (hgood : d.good (s.view s.replies))
    (htoken : ∀ c t, (s.held? c).credential.token = some t → d.token [] c t) :
    Orderly d s.replies (s.view s.replies) s := by
  have hrequests : s.requests = [] := by rw [requests, h.trace]; rfl
  have hcontacts : (s.view s.replies).contacts = [] := by
    rw [view, contacts, hrequests]
    rfl
  refine ⟨⟨h.plain, by rw [hrequests]; rfl, rfl, hgood, fun c => ?_, fun c => ?_,
    fun c _ => h.caches c, h.deaf, ?_, ?_⟩, fun i => .idle (h.idle i), fun i _ => h.idle i⟩
  · rw [h.caches, hcontacts]
    exact Cache.State.holds_initial (htoken c)
  · rw [h.caches]
    exact Cache.State.slotLatest_initial _
  · rw [h.jobs]
    exact fun job hjob => absurd hjob List.not_mem_nil
  · rw [h.trace]
    exact fun entry hentry => absurd hentry List.not_mem_nil

end Bearer.Session
