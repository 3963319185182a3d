import Bearer.Proofs.Session.Sound

namespace Bearer.Session

/-- All that a session sets going of itself asks nothing but this. -/
structure Native (P : Query → Prop) : Prop where
  requests : ∀ c, (Credential.requestToken c).Asks P
  listeners : ∀ (l : Listener) c calls, (l.act c calls).Asks P

theorem native_of_ofListener {P : Query → Prop} (h : ∀ q, q.OfListener → P q) : Native P where
  requests c := (Credential.requestToken_asks c).mono fun _ hq => h _ (Listener.ofRefresh hq).1
  listeners l c calls := (l.act_asks c calls).mono h

variable {P : Query → Prop} {i : Option Cache.CallerId} {s s' : Session}

theorem spawn_acts (hi : i ≠ some s.born) {p : Procedure Ending} (hp : p.Asks P) :
    Acts P i s (s.spawn p) :=
  .head .birth (advance_acts hi (Nat.lt_succ_self s.born) hp)

theorem callListener_acts (hi : i ≠ some s.born) (c : CredentialId) (k : Cache.RefreshId)
    (l : Cache.ListenerId)
    (hl : ∀ x n, (s.held? c).listeners[l]? = some (x, n) → (x.act c n).Asks P) :
    Acts P i s (s.callListener c k l) := by
  unfold callListener
  split
  · exact put_acts (.listenerDone c k none) trivial rfl trivial .next
  · next listener calls hlistener =>
    dsimp only
    have hcount := Act.reshape (P := P) (i := i) (s := s) c
      (fun h => { h with listeners := h.listeners.set l (listener, calls + 1) })
      fun h => ⟨rfl, rfl⟩
    exact .head hcount (spawn_acts (by exact hi) (hl listener calls hlistener).attempt.map)

theorem answer_acts (hs : ∀ t ∈ s.threads, t.id < s.born ∧ (i ≠ some t.id → t.waiting.Asks P))
    {id : Cache.CallerId} (hi : i ≠ some id) (outcome : Result (Option Token)) :
    Acts P i s (s.answer id outcome) := by
  unfold answer
  split
  · next found _ _ next hfound =>
    have hmem := List.mem_of_find?_eq_some hfound
    have hid : found = id := by simpa using List.find?_some hfound
    subst hid
    obtain ⟨hborn, hasks⟩ := hs _ hmem
    have hborn' : found < (s.forget found).born := hborn
    exact .head (.forget found hi) (resume_acts hi hborn' (hasks hi outcome) .next)
  · exact .refl

/-- A job that is not the bystander's, and calls no listener but those that ask nothing else. -/
theorem perform_acts_of (hrequests : ∀ c, (Credential.requestToken c).Asks P)
    (hi : i ≠ some s.born)
    (hs : ∀ t ∈ s.threads, t.id < s.born ∧ (i ≠ some t.id → t.waiting.Asks P))
    {job : Job} (hasks : job.Asks P) (hborn : ∀ id ∈ job.party?, id < s.born)
    (hapart : Apart i job.party?)
    (hlistener : ∀ c executor k l, job = .effect c executor (.notify k l) →
      ∀ x n, (s.held? c).listeners[l]? = some (x, n) → (x.act c n).Asks P) :
    Acts P i s (s.perform job) := by
  cases job with
  | resume id program => exact advance_acts (hapart id rfl) (hborn id rfl) hasks
  | effect c executor e =>
    cases e with
    | log entry => exact .single (.observe (.logged entry) trivial)
    | run k => exact spawn_acts hi (hrequests c).attempt.map
    | hold k =>
      cases executor with
      | manual => exact put_acts (.launch c k) trivial rfl trivial (.kept ⟨c, k, rfl⟩)
      | _ => exact put_acts (.launch c k) trivial rfl trivial .later
    | due k => exact put_acts (.process c k) trivial rfl trivial .next
    | notify k l => exact callListener_acts hi c k l (hlistener c executor k l rfl)
    | answer caller outcome => exact answer_acts hs (hapart caller rfl) outcome
  | launch c k => exact cache_acts s c .direct (e := .launch k) rfl
  | process c k => exact cache_acts s c .direct (e := .process k) rfl
  | listenerDone c k failure => exact cache_acts s c .direct (e := .listenerDone k failure) rfl

theorem Sound.unborn_bystander (hs : s.Sound P i) : i ≠ some s.born :=
  fun hi => Nat.lt_irrefl _ (hs.bystander _ hi)

theorem Sound.askers (hs : s.Sound P i) :
    ∀ t ∈ s.threads, t.id < s.born ∧ (i ≠ some t.id → t.waiting.Asks P) :=
  fun t ht => ⟨(hs.threads t ht).1, (hs.threads t ht).2.1⟩

theorem perform_acts (hnative : Native P) (hs : s.Sound P i) {job : Job} (hasks : job.Asks P)
    (hborn : ∀ id ∈ job.party?, id < s.born) (hapart : Apart i job.party?) :
    Acts P i s (s.perform job) :=
  perform_acts_of hnative.requests hs.unborn_bystander hs.askers hasks hborn hapart
    fun c _ _ _ _ x n _ => hnative.listeners x c n

theorem Sound.anyhow (hs : s.Sound P i) : s.Sound (fun _ => True) none where
  threads t ht := by
    refine ⟨(hs.threads t ht).1, fun _ => ?_, nofun⟩
    cases t.waiting <;> exact fun r => Procedure.Asks.anything _
  jobs job hjob := by
    refine ⟨(hs.jobs job hjob).1, fun _ => ?_⟩
    cases job with
    | resume id program => exact Procedure.Asks.anything program
    | _ => trivial
  waiters := hs.waiters
  bystander := nofun
  history := hs.history

theorem mem_of_earliest {timers : List (Double × Job)} {t : Double × Job}
    (h : earliest? timers = some t) : t ∈ timers := by
  unfold earliest? at h
  refine List.foldlRecOn (motive := fun best => ∀ b, best = some b → b ∈ timers) timers _
    (fun b hb => by cases hb) (fun best hbest u hu b hb => ?_) t h
  cases best with
  | none => exact Option.some.inj hb ▸ hu
  | some earlier =>
    dsimp only at hb
    by_cases hlt : u.1.lt earlier.1
    · rw [if_pos hlt] at hb
      exact Option.some.inj hb ▸ hu
    · rw [if_neg hlt] at hb
      exact hbest b hb

theorem sublist_dropFirst (at_ : Double) (timers : List (Double × Job)) :
    (dropFirst at_ timers).Sublist timers := by
  induction timers with
  | nil => exact .slnil
  | cons t later ih =>
    unfold dropFirst
    split
    · exact .cons t (List.Sublist.refl later)
    · exact .cons_cons t ih

theorem takes_of_takeJob {job : Job} (h : s.takeJob? = some (job, s')) : s.Takes job s' := by
  unfold takeJob? at h
  split at h
  · next hinner =>
    cases h
    exact .inner hinner
  · next hinner hagenda =>
    cases h
    exact .agenda hinner hagenda
  · next hdeferred =>
    cases h
    exact .deferred hdeferred
  · obtain ⟨t, ht, heq⟩ := Option.map_eq_some_iff.mp h
    cases heq
    exact .timer (List.mem_map_of_mem (mem_of_earliest ht)) (sublist_dropFirst _ _)

/-- The first thread goes on that waits for something of the kind. -/
def wake (s : Session) (f : Waiting → Option (Procedure Ending)) : Session :=
  match s.threads.findSome? fun t => (f t.waiting).map fun p => (t.id, p) with
  | some (id, p) => (s.forget id).doNext (.resume id p)
  | none => s

/-- How a thread goes on whose operation has ended. -/
def Waiting.ended? (number : Nat) (outcome : Result Token) : Waiting → Option (Procedure Ending)
  | .operation n next => if n = number then some (next outcome) else none
  | _ => none

/-- How a thread goes on that has passed a gate. -/
def Waiting.passed? (gate : String) : Waiting → Option (Procedure Ending)
  | .gate name next => if name = gate then some (next ()) else none
  | _ => none

theorem endOperation_eq_wake (s : Session) (number : Nat) (outcome : Result Offer) :
    s.endOperation number outcome =
      s.wake (Waiting.ended? number (outcome.map fun o => o.token s.now)) := by
  unfold endOperation wake
  dsimp only
  have hgo : (fun t : Thread => (Waiting.ended? number (outcome.map fun o => o.token s.now)
      t.waiting).map fun p => (t.id, p)) =
      Option.map (fun found : Cache.CallerId × (Result Token → Procedure Ending) =>
        (found.1, found.2 (outcome.map fun o => o.token s.now))) ∘
      fun t : Thread => match t.waiting with
        | .operation n next => if n = number then some (t.id, next) else none
        | _ => none := by
    funext t
    simp only [Waiting.ended?, Function.comp_apply]
    cases t.waiting with
    | operation n next => by_cases hn : n = number <;> simp [hn]
    | token | gate => rfl
  rw [hgo, ← List.map_findSome?]
  cases s.threads.findSome? _ <;> rfl

theorem release_eq_wake (s : Session) (gate : String) :
    s.release gate = s.wake (Waiting.passed? gate) := by
  unfold release wake
  dsimp only
  have hgo : (fun t : Thread => (Waiting.passed? gate t.waiting).map fun p => (t.id, p)) =
      Option.map (fun found : Cache.CallerId × (Unit → Procedure Ending) =>
        (found.1, found.2 ())) ∘
      fun t : Thread => match t.waiting with
        | .gate name next => if name = gate then some (t.id, next) else none
        | _ => none := by
    funext t
    simp only [Waiting.passed?, Function.comp_apply]
    cases t.waiting with
    | gate name next => by_cases hn : name = gate <;> simp [hn]
    | token | operation => rfl
  rw [hgo, ← List.map_findSome?]
  cases s.threads.findSome? _ <;> rfl

theorem Waiting.Asks.ended {number : Nat} {outcome : Result Token} {w : Waiting}
    {p : Procedure Ending} (h : w.ended? number outcome = some p) (hw : w.Asks P) : p.Asks P := by
  cases w with
  | operation n next =>
    obtain ⟨-, hp⟩ := Option.ite_none_right_eq_some.mp h
    cases hp
    exact hw outcome
  | token | gate => cases h

theorem Waiting.Asks.passed {gate : String} {w : Waiting} {p : Procedure Ending}
    (h : w.passed? gate = some p) (hw : w.Asks P) : p.Asks P := by
  cases w with
  | gate name next =>
    obtain ⟨-, hp⟩ := Option.ite_none_right_eq_some.mp h
    cases hp
    exact hw ()
  | token | operation => cases h

/-- A bystander does not wait for anything of the kind. -/
theorem wake_acts (hs : s.Sound P i) {f : Waiting → Option (Procedure Ending)}
    (hno : ∀ c next, f (.token c none next) = none)
    (hasks : ∀ w p, f w = some p → w.Asks P → p.Asks P) : Acts P i s (s.wake f) := by
  unfold Session.wake
  split
  · next id p hfound =>
    obtain ⟨t, ht, hit⟩ := List.exists_of_findSome?_eq_some hfound
    obtain ⟨p', hp, heq⟩ := Option.map_eq_some_iff.mp hit
    cases heq
    obtain ⟨hborn, hthread, hspared⟩ := hs.threads t ht
    have hi : i ≠ some t.id := by
      intro hi
      obtain ⟨c, next, hw⟩ := hspared hi
      rw [hw, hno] at hp
      cases hp
    have hborn' : t.id < (s.forget t.id).born := hborn
    exact .head (.forget t.id hi) (resume_acts hi hborn' (hasks _ _ hp (hthread hi)) .next)
  · exact .refl

theorem endOperation_acts (hs : s.Sound P i) (number : Nat) (outcome : Result Offer) :
    Acts P i s (s.endOperation number outcome) := by
  rw [endOperation_eq_wake]
  exact wake_acts hs (fun _ _ => rfl) fun _ _ => Waiting.Asks.ended

theorem release_acts (hs : s.Sound P i) (gate : String) : Acts P i s (s.release gate) := by
  rw [release_eq_wake]
  exact wake_acts hs (fun _ _ => rfl) fun _ _ => Waiting.Asks.passed

theorem waitsFor_eq_some {signal : Signal} {t : Thread} {w : CredentialId × Cache.CallerId}
    (h : waitsFor signal t = some w) :
    w.2 = t.id ∧ ∃ next, t.waiting = .token w.1 (some signal) next := by
  unfold waitsFor at h
  split at h
  · next c name next hwaits =>
    obtain ⟨rfl, hw⟩ := Option.ite_none_right_eq_some.mp h
    cases hw
    exact ⟨rfl, next, hwaits⟩
  · cases h

/-- What all acts keep, and the bystander's jobs among what is to be done first. -/
structure Kept (P : Query → Prop) (i : Option Cache.CallerId) (I : Session → Prop) : Prop where
  native : Native P
  sound : ∀ s, I s → s.Sound P i
  act : ∀ s s', I s → Act P i s s' → I s'
  own : ∀ s job rest id, I s → s.inner = job :: rest → i = some id → job.party? = some id →
    I (({ s with inner := rest } : Session).perform job)

/-- What the bystander's jobs keep at whatever time they come. -/
structure KeptThroughout (P : Query → Prop) (i : Option Cache.CallerId) (I : Session → Prop) :
    Prop extends Kept P i I where
  later : ∀ s s' job id, I s → s.Takes job s' → i = some id → job.party? = some id →
    I (s'.perform job)

namespace Kept
variable {I : Session → Prop} (hI : Kept P i I)
include hI

theorem acts (h : Acts P i s s') (hs : I s) : I s' := by
  induction h with
  | refl => exact hs
  | tail _ hact ih => exact hI.act _ _ ih hact

/-- A job of somebody else. -/
theorem other {job : Job} (hs : I s) (h : s.Takes job s') (hapart : Apart i job.party?) :
    I (s'.perform job) := by
  obtain ⟨hborn, hasks⟩ := (hI.sound s hs).jobs job h.mem
  have htaken := hI.act s s' hs (.take job hapart h)
  exact hI.acts (perform_acts hI.native (hI.sound s' htaken) (hasks hapart) (h.born ▸ hborn)
    hapart) htaken

theorem workInner (n : Nat) (hs : I s) : I (workInner n s) := by
  induction n generalizing s with
  | zero => exact hs
  | succ n ih =>
    unfold Session.workInner
    split
    · exact hs
    · next job rest hinner =>
      refine ih ?_
      rcases apart_or i job.party? with hapart | ⟨id, hi, hid⟩
      · exact hI.other hs (.inner hinner) hapart
      · exact hI.own s job rest id hs hinner hi hid

theorem spawn {p : Procedure Ending} (hp : p.Asks P) (hs : I s) : I (s.spawn p) := by
  have hi : i ≠ some s.born := fun hi => Nat.lt_irrefl _ ((hI.sound s hs).bystander _ hi)
  exact hI.acts (spawn_acts hi hp) hs

theorem since (n : Nat) : Kept P i (fun s => I s ∧ n ≤ s.born) where
  native := hI.native
  sound s hs := hI.sound s hs.1
  act s s' hs h := ⟨hI.act s s' hs.1 h, Nat.le_trans hs.2 h.born⟩
  own s job rest id hs hinner hi hid := by
    refine ⟨hI.own s job rest id hs.1 hinner hi hid, Nat.le_trans hs.2 ?_⟩
    have hany := (hI.sound s hs.1).anyhow
    have htake : s.Takes job { s with inner := rest } := .inner hinner
    obtain ⟨hborn, hasks⟩ := hany.jobs job htake.mem
    have hnative : Native fun _ => True :=
      ⟨fun _ => Procedure.Asks.anything _, fun _ _ _ => Procedure.Asks.anything _⟩
    exact (perform_acts hnative (hany.take htake) (hasks nofun) hborn nofun).born

theorem giveUp (reason : Thrown) {waiting : List (CredentialId × Cache.CallerId)}
    (hwaiting : ∀ w ∈ waiting, w.2 < s.born ∧ i ≠ some w.2) (hs : I s) :
    I (waiting.foldl (fun s w =>
      (s.stepCache w.1 .direct (.abort w.2 reason)).finishCall) s) := by
  -- Nobody becomes unborn meanwhile, so all who are to give up stay known.
  have hsince := hI.since s.born
  suffices hfold : ∀ t : Session, I t ∧ s.born ≤ t.born →
      I (waiting.foldl (fun s w =>
        (s.stepCache w.1 .direct (.abort w.2 reason)).finishCall) t) from
    hfold s ⟨hs, Nat.le_refl _⟩
  induction waiting with
  | nil => exact fun t ht => ht.1
  | cons w waiting ih =>
    intro t ht
    refine ih (fun v hv => hwaiting v (List.mem_cons_of_mem _ hv)) _ ?_
    obtain ⟨hborn, hapart⟩ := hwaiting w List.mem_cons_self
    refine hsince.workInner plenty (hsince.act t _ ht (.cache w.1 .direct _ ?_ ?_))
    · rintro id ⟨⟩
      exact Nat.lt_of_lt_of_le hborn ht.2
    · exact apart_some hapart

theorem abort (signal : Signal) (reason : Thrown) (hs : I s) : I (s.abort signal reason) := by
  unfold Session.abort
  split
  · exact hs
  · dsimp only
    refine hI.giveUp reason (fun w hw => ?_) (hI.act s _ hs (.aside ..))
    obtain ⟨t, ht, hwt⟩ := List.mem_filterMap.mp hw
    obtain ⟨hid, next, hwaits⟩ := waitsFor_eq_some hwt
    obtain ⟨hborn, -, hspared⟩ := (hI.sound s hs).threads t ht
    rw [hid]
    refine ⟨hborn, fun hi => ?_⟩
    obtain ⟨c, next', hnone⟩ := hspared hi
    cases hwaits.symm.trans hnone

end Kept

namespace KeptThroughout
variable {I : Session → Prop} (hI : KeptThroughout P i I)
include hI

theorem apply {m : Move} (hm : m.Asks P) (hs : I s) : I (m.apply s) := by
  cases m with
  | call name program => exact hI.workInner plenty (hI.spawn hm.attempt.map hs)
  | quietly program => exact hI.workInner plenty (hI.spawn hm.attempt.map hs)
  | abort signal reason => exact hI.abort signal reason hs
  | endOperation number outcome =>
    exact hI.acts (endOperation_acts (hI.sound s hs) number outcome) hs
  | release gate => exact hI.acts (release_acts (hI.sound s hs) gate) hs
  | runKept => exact hI.workInner plenty (hI.act s _ hs .reclaim)
  | work =>
    refine hI.workInner plenty ?_
    simp only [work]
    cases hjob : s.takeJob? with
    | none => exact hs
    | some taken =>
      have htake := takes_of_takeJob hjob
      rcases apart_or i taken.1.party? with hapart | ⟨id, hi, hid⟩
      · exact hI.other hs htake hapart
      · exact hI.later s taken.2 taken.1 id hs htake hi hid
  | world w => exact hI.act s _ hs (.world w)

/-- What every act and every job keeps, every schedule keeps. -/
theorem play {moves : List Move} (hmoves : ∀ m ∈ moves, m.Asks P) (hs : I s) :
    I (s.play moves) := by
  induction moves generalizing s with
  | nil => exact hs
  | cons m moves ih =>
    exact ih (fun n hn => hmoves n (List.mem_cons_of_mem _ hn))
      (hI.apply (hmoves m List.mem_cons_self) hs)

end KeptThroughout

/-- Every schedule leaves a session in order. -/
theorem Sound.play (hs : s.Sound P none) (hnative : Native P) {moves : List Move}
    (hmoves : ∀ m ∈ moves, m.Asks P) : (s.play moves).Sound P none := by
  have hkept : KeptThroughout P none (fun s => s.Sound P none) :=
    { native := hnative
      sound := fun _ hs => hs
      act := fun _ _ hs h => hs.act h
      own := fun _ _ _ _ _ _ hi => nomatch hi
      later := fun _ _ _ _ _ _ hi => nomatch hi }
  exact hkept.play hmoves hs

end Bearer.Session
