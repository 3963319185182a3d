import Bearer.Proofs.Cache.Waiters
import Bearer.Proofs.Session.Schedule
import Mathlib.Logic.Relation

namespace Bearer

namespace Credential

/-- A credential with another source, if it has one. -/
def redirected (source : CredentialId) (c : Credential) : Credential :=
  match c.kind with
  | .impersonated i => { c with kind := .impersonated { i with source } }
  | _ => c

/-- What no work changes of a credential: all but the source of an impersonation. -/
def lasting (c : Credential) : Credential := c.redirected 0

theorem toSetup_redirected (source : CredentialId) (c : Credential) :
    (c.redirected source).toSetup = c.toSetup := by
  unfold redirected
  split <;> rfl

theorem redirected_redirected (source source' : CredentialId) (c : Credential) :
    (c.redirected source).redirected source' = c.redirected source' := by
  cases hkind : c.kind <;> simp only [redirected, hkind]

theorem exists_redirected_self (c : Credential) : ∃ source, c.redirected source = c := by
  obtain ⟨setup, kind⟩ := c
  cases kind with
  | impersonated i => exact ⟨i.source, rfl⟩
  | _ => exact ⟨0, rfl⟩

/-- Credentials that last alike differ at most in the source of an impersonation. -/
theorem redirected_of_lasting {c c' : Credential} (h : c'.lasting = c.lasting) :
    ∃ source, c' = c.redirected source := by
  obtain ⟨source, hself⟩ := c'.exists_redirected_self
  refine ⟨source, ?_⟩
  calc c' = c'.redirected source := hself.symm
    _ = c'.lasting.redirected source := (redirected_redirected 0 source c').symm
    _ = c.redirected source := by rw [h, lasting, redirected_redirected]

theorem toSetup_of_lasting {c c' : Credential} (h : c'.lasting = c.lasting) :
    c'.toSetup = c.toSetup := by
  rw [← toSetup_redirected 0 c', ← toSetup_redirected 0 c]
  exact congrArg Credential.toSetup h

end Credential

namespace Session

/-- Whatever it is told, a thread that waits asks nothing but this. -/
def Waiting.Asks (P : Query → Prop) : Waiting → Prop
  | .token _ _ next => ∀ r, (next r).Asks P
  | .operation _ next => ∀ r, (next r).Asks P
  | .gate _ next => ∀ r, (next r).Asks P

/-- The thread that a job is for. -/
def Job.party? : Job → Option Cache.CallerId
  | .resume id _ => some id
  | .effect _ _ (.answer id _) => some id
  | _ => none

def Job.Asks (P : Query → Prop) : Job → Prop
  | .resume _ program => program.Asks P
  | _ => True

/-- What a cache wants done is done first; all other work has to queue. -/
def Job.Queues : Job → Prop
  | .effect .. => False
  | _ => True

/-- What comes of a query that may be asked. -/
def Observation.Due (P : Query → Prop) : Observation → Prop
  | .noted n => P (.note n)
  | .stored call => P (.store call)
  | _ => True

/-- A job has been put into one of the queues. -/
inductive Puts (s : Session) (job : Job) : Session → Prop
  | next : Puts s job (s.doNext job)
  | later : Puts s job (s.doLater job)
  | after (ms : Double) : Puts s job (s.doAfter ms job)
  | kept (h : ∃ c k, job = .launch c k) : Puts s job { s with kept := s.kept ++ [job] }

inductive Takes (s : Session) (job : Job) : Session → Prop
  | inner {rest : List Job} (h : s.inner = job :: rest) : Takes s job { s with inner := rest }
  | agenda {rest : List Job} (hi : s.inner = []) (h : s.agenda = job :: rest) :
      Takes s job { s with agenda := rest }
  | deferred {rest : List Job} (h : s.deferred = job :: rest) :
      Takes s job { s with deferred := rest }
  | timer {now : Double} {rest : List (Double × Job)} (h : job ∈ s.timers.map Prod.snd)
      (hrest : rest.Sublist s.timers) : Takes s job { s with now, timers := rest }

variable (P : Query → Prop) (i : Option Cache.CallerId)

/-- A thread or a job is not that of the bystander. -/
def Apart (party : Option Cache.CallerId) : Prop := ∀ id, party = some id → i ≠ some id

/-- One elementary change of a session, which a bystander has no part in. -/
inductive Act (s : Session) : Session → Prop
  | aside (offsets : List Double) (replies : List Reply) (started : Nat)
      (aborted : List (Signal × Thrown)) : Act s { s with offsets, replies, started, aborted }
  | world (w : World) : Act s (w.around s)
  | store (call : TokenStore.Call) (h : P (.store call)) :
      Act s { s with store := (s.store.perform call).1 }
  | observe (o : Observation) (h : o.Due P) : Act s (s.observe o)
  | birth : Act s { s with born := s.born + 1 }
  | put (job : Job) {s' : Session} (hasks : job.Asks P) (hborn : ∀ id ∈ job.party?, id < s.born)
      (hapart : Apart i job.party?) (h : s.Puts job s') (hqueues : job.Queues) : Act s s'
  | take (job : Job) {s' : Session} (hapart : Apart i job.party?) (h : s.Takes job s') : Act s s'
  | reclaim : Act s ({ s with kept := [] }.doFirst s.kept)
  | block (id : Cache.CallerId) (w : Waiting) (hasks : w.Asks P) (hborn : id < s.born)
      (hapart : i ≠ some id) : Act s (s.block id w)
  | forget (id : Cache.CallerId) (hapart : i ≠ some id) : Act s (s.forget id)
  | cache (c : CredentialId) (executor : Executor) (e : Cache.Event)
      (hborn : ∀ id ∈ e.party?, id < s.born) (hapart : Apart i e.party?) :
      Act s (s.stepCache c executor e)
  | create (credential : Credential) : Act s
      { s with held := s.held ++ [{ credential, cache := { token := credential.token } }] }
  | reshape (c : CredentialId) (f : Held → Held)
      (hf : ∀ h, (f h).cache = h.cache ∧ (f h).credential.lasting = h.credential.lasting) :
      Act s (s.modifyHeld c f)

abbrev Acts : Session → Session → Prop := Relation.ReflTransGen (Act P i)

variable {P i} {s s' : Session}

theorem Puts.born {job : Job} (h : s.Puts job s') : s'.born = s.born := by
  cases h <;> rfl

theorem Puts.held {job : Job} (h : s.Puts job s') : s'.held = s.held := by
  cases h <;> rfl

theorem Takes.born {job : Job} (h : s.Takes job s') : s'.born = s.born := by
  cases h <;> rfl

/-- A reply that is lost changes nothing; any other sets its job going, at once or in a while. -/
theorem arrive_cases (s : Session) (reply : Reply) (job : Job) :
    (reply.lost = true ∧ s.arrive reply job = s) ∨ s.Puts job (s.arrive reply job) := by
  unfold arrive
  split
  · next hlost => exact .inl ⟨hlost, rfl⟩
  · split
    · exact .inr (.after _)
    · exact .inr .next

theorem Act.born (h : Act P i s s') : s.born ≤ s'.born := by
  cases h with
  | birth => exact Nat.le_succ s.born
  | put job _ _ _ h => exact Nat.le_of_eq h.born.symm
  | take job _ h => exact Nat.le_of_eq h.born.symm
  | _ => exact Nat.le_refl s.born

theorem Acts.born (h : Acts P i s s') : s.born ≤ s'.born := by
  induction h with
  | refl => exact Nat.le_refl s.born
  | tail _ hact ih => exact Nat.le_trans ih hact.born

theorem apart_none : Apart i none := nofun

theorem apart_some {id : Cache.CallerId} (h : i ≠ some id) : Apart i (some id) := by
  rintro j ⟨⟩
  exact h

/-- A cache does something that no caller has asked for. -/
theorem cache_acts (s : Session) (c : CredentialId) (executor : Executor) {e : Cache.Event}
    (he : e.party? = none) : Acts P i s (s.stepCache c executor e) :=
  .single (.cache c executor e (by simp [he]) (he ▸ apart_none))

theorem put_acts (job : Job) (hasks : job.Asks P) (hparty : job.party? = none)
    (hqueues : job.Queues) (h : s.Puts job s') : Acts P i s s' :=
  .single (.put job hasks (by simp [hparty]) (hparty ▸ apart_none) h hqueues)

theorem apart_or (i party : Option Cache.CallerId) :
    Apart i party ∨ ∃ id, i = some id ∧ party = some id := by
  cases party with
  | none => exact .inl apart_none
  | some id =>
    by_cases hi : i = some id
    · exact .inr ⟨id, hi, rfl⟩
    · exact .inl (apart_some hi)

/-- How an executor has the cache start a refresh. -/
def startOn : Executor → Cache.Start
  | .direct => .now
  | .deferring | .manual => .later
  | .refusing failure => .refused failure

/-- A thread that asks for a token waits before the cache has a look. -/
theorem advance_fetch (s : Session) (id : Cache.CallerId) (c : CredentialId)
    (executor : Executor) (signal : Option Signal) (next : Result Token → Procedure Ending) :
    advance id (.ask (.fetch c executor signal) next) s =
      let first := s.readFor (s.held? c).cache
      let second := first.2.readFor (first.2.held? c).cache
      (second.2.block id (.token c signal fun r => next (givenToken r))).stepCache c executor
        (.fetch id (startOn executor) first.1 second.1 (second.2.reason? signal)) := by
  cases executor <;> rfl

theorem advance_refreshIfExpired (s : Session) (id : Cache.CallerId) (c : CredentialId)
    (signal : Option Signal) (next : Result Unit → Procedure Ending) :
    advance id (.ask (.refreshIfExpired c signal) next) s =
      let reading := s.readFor (s.held? c).cache
      (reading.2.block id (.token c signal fun r => next (r.map fun _ => ()))).stepCache c .direct
        (.refreshIfExpired id reading.1 (reading.2.reason? signal)) := rfl

theorem read_acts (s : Session) : Acts P i s s.read.2 := by
  unfold Session.read
  split
  · exact .refl
  · exact .single (.aside ..)

theorem readFor_acts (s : Session) (cache : Cache.State) : Acts P i s (s.readFor cache).2 := by
  unfold readFor
  split
  · split
    · exact .refl
    · exact read_acts s
  · exact .refl

theorem takeReply_acts (s : Session) (r : Http.Request) : Acts P i s (s.takeReply r).2 := by
  unfold takeReply
  split
  · exact .refl
  · exact .single (.aside ..)

theorem transmitWrapped_acts (s : Session) (r : Http.Request) :
    Acts P i s (s.transmitWrapped r).2 := by
  unfold transmitWrapped
  have htake : Acts P i s (if Http.Network.leaves r then s.takeReply r
      else ({ outcome := .error (unexpected r) }, s)).2 := by
    split
    · exact takeReply_acts s r
    · exact .refl
  generalize (if Http.Network.leaves r then s.takeReply r
    else ({ outcome := .error (unexpected r) }, s)) = taken at htake
  dsimp only
  split
  · exact htake.tail (.observe _ trivial)
  · exact htake

theorem transmit_acts (s : Session) (r : Http.Request) : Acts P i s (s.transmit r).2 := by
  unfold transmit
  split
  · exact transmitWrapped_acts s r
  · exact .head (.observe (.sent r) trivial) (takeReply_acts _ r)

section Thread
variable {id : Cache.CallerId} (hapart : i ≠ some id)
include hapart

theorem resume_acts (hborn : id < s.born) {p : Procedure Ending} (hp : p.Asks P) {s' : Session}
    (h : s.Puts (.resume id p) s') : Acts P i s s' := by
  refine .single (.put (.resume id p) hp ?_ (apart_some hapart) h trivial)
  rintro j ⟨⟩
  exact hborn

theorem arrive_acts (hborn : id < s.born) (reply : Reply) {p : Procedure Ending}
    (hp : p.Asks P) : Acts P i s (s.arrive reply (.resume id p)) := by
  rcases arrive_cases s reply (.resume id p) with ⟨-, hlost⟩ | hput
  · exact hlost.symm ▸ .refl
  · exact resume_acts hapart hborn hp hput

theorem startOperation_acts (hborn : id < s.born) {next : Result Token → Procedure Ending}
    (hnext : ∀ r, (next r).Asks P) : Acts P i s (s.startOperation id next) := by
  have hstart : Acts P i s { s with started := s.started + 1 } := .single (.aside ..)
  have hborn' : id < ({ s with started := s.started + 1 } : Session).born := hborn
  unfold startOperation
  dsimp only
  split
  · exact hstart.trans (resume_acts hapart hborn' (hnext _) .next)
  · exact hstart.tail (.block id (.operation s.started next) hnext hborn hapart)

/-- A thread waits for a token and asks a cache for it. -/
theorem ask_acts (hborn : id < s.born) (c : CredentialId) (signal : Option Signal)
    {next : Result (Option Token) → Procedure Ending} (hnext : ∀ r, (next r).Asks P)
    (executor : Executor) {e : Cache.Event} (he : e.party? = some id) :
    Acts P i s ((s.block id (.token c signal next)).stepCache c executor e) := by
  refine .head (.block id (.token c signal next) hnext hborn hapart)
    (.single (.cache c executor e ?_ ?_))
  · intro j hj
    obtain rfl : id = j := by simpa [he] using hj
    exact hborn
  · rw [he]
    exact apart_some hapart

omit hapart in
theorem finish_acts (s : Session) (e : Ending) : Acts P i s (s.finish e) := by
  cases e with
  | operation c k outcome => exact cache_acts s c .direct (e := .settle k outcome) rfl
  | listener c k failure => exact put_acts (.listenerDone c k failure) trivial rfl trivial .next
  | call name outcome => exact .single (.observe (.answered name outcome) trivial)
  | nothing => exact .refl

theorem advance_acts (hborn : id < s.born) {p : Procedure Ending} (hp : p.Asks P) :
    Acts P i s (advance id p s) := by
  induction p generalizing s with
  | done outcome =>
    cases outcome with
    | error failure => exact .refl
    | ok e => exact finish_acts s e
  | ask q next ih =>
    obtain ⟨hq, hnext⟩ := hp
    -- Whatever is done first, the thread goes on from there.
    have onward {s' : Session} (hacts : Acts P i s s') (r : Bearer.Reply q) :
        Acts P i s (advance id (next r) s') :=
      hacts.trans (ih r (Nat.lt_of_lt_of_le hborn hacts.born) (hnext r))
    cases q with
    | now => exact onward (read_acts s) _
    | note n => exact onward (.single (.observe (.noted n) hq)) ()
    | send r =>
      have htransmit : Acts P i s (s.transmit r).2 := transmit_acts s r
      exact htransmit.trans
        (arrive_acts hapart (Nat.lt_of_lt_of_le hborn htransmit.born) _ (hnext _))
    | read path => exact resume_acts hapart hborn (hnext _) .later
    | store call =>
      have hborn' : id < ({ s.observe (.stored call) with
          store := (s.store.perform call).1 } : Session).born := hborn
      refine .head (.observe (.stored call) hq) (.head (.store call hq) ?_)
      exact resume_acts hapart hborn' (hnext (s.store.perform call).2) .next
    | fetch c executor signal =>
      have hfirst : Acts P i s (s.readFor (s.held? c).cache).2 := readFor_acts s _
      have hreads := hfirst.trans
        (readFor_acts _ ((s.readFor (s.held? c).cache).2.held? c).cache)
      rw [advance_fetch]
      refine hreads.trans (ask_acts hapart (Nat.lt_of_lt_of_le hborn (Acts.born hreads)) c signal
        (fun r => hnext (givenToken r)) executor ?_)
      rfl
    | refresh c signal =>
      exact ask_acts hapart hborn c signal (fun r => hnext (r.map fun _ => ())) .direct rfl
    | refreshIfExpired c signal =>
      have hread : Acts P i s (s.readFor (s.held? c).cache).2 := readFor_acts s _
      rw [advance_refreshIfExpired]
      refine hread.trans (ask_acts hapart (Nat.lt_of_lt_of_le hborn hread.born) c signal
        (fun r => hnext (r.map fun _ => ())) .direct ?_)
      rfl
    | credential c => exact onward .refl _
    | cached c => exact onward .refl _
    | freshness c => exact onward (readFor_acts s _) _
    | create credential => exact onward (.single (.create credential)) _
    | redirect c source =>
      refine onward (.single (.reshape c _ fun h => ?_)) ()
      split
      · next hkind =>
        exact ⟨rfl, by simp only [Credential.lasting, Credential.redirected, hkind]⟩
      · exact ⟨rfl, rfl⟩
    | listen c l =>
      have hadd := Act.reshape (P := P) (i := i) (s := s) c
        (fun h => { h with listeners := h.listeners ++ [(l, 0)] }) fun h => ⟨rfl, rfl⟩
      exact onward (.head hadd (cache_acts _ c .direct rfl)) ()
    | callbackFailed c failure => exact onward (cache_acts s c .direct rfl) ()
    | operation c => exact startOperation_acts hapart hborn hnext
    | gate name => exact .single (.block id (.gate name next) hnext hborn hapart)
    | rest => exact resume_acts hapart hborn (hnext ()) .later

end Thread

end Session

end Bearer
