import Bearer.Session.Run

namespace Bearer.Session

/-- A session with more that was there before. -/
def behind (s : Session) (threads : List Thread) (agenda : List Job)
    (trace : List Observation) : Session :=
  { s with
    threads := threads ++ s.threads
    agenda := agenda ++ s.agenda
    trace := s.trace ++ trace }

/-- It makes no difference to what is done how much was there before. -/
def Blind (f : Session → Session) : Prop :=
  ∀ s threads agenda trace, f (s.behind threads agenda trace) = (f s).behind threads agenda trace

section Steps
variable (s : Session) (threads : List Thread) (agenda : List Job) (trace : List Observation)

@[simp] theorem observe_behind (o : Observation) :
    (s.behind threads agenda trace).observe o = (s.observe o).behind threads agenda trace := rfl

@[simp] theorem doNext_behind (job : Job) :
    (s.behind threads agenda trace).doNext job = (s.doNext job).behind threads agenda trace := by
  simp [doNext, behind]

@[simp] theorem block_behind (id : Cache.CallerId) (w : Waiting) :
    (s.behind threads agenda trace).block id w = (s.block id w).behind threads agenda trace := by
  simp [block, behind]

@[simp] theorem stepCache_behind (c : CredentialId) (executor : Executor) (e : Cache.Event) :
    (s.behind threads agenda trace).stepCache c executor e =
      (s.stepCache c executor e).behind threads agenda trace := rfl

@[simp] theorem held?_behind (c : CredentialId) :
    (s.behind threads agenda trace).held? c = s.held? c := rfl

@[simp] theorem reason?_behind (signal : Option Signal) :
    (s.behind threads agenda trace).reason? signal = s.reason? signal := rfl

@[simp] theorem read_behind : (s.behind threads agenda trace).read =
    (s.read.1, s.read.2.behind threads agenda trace) := by
  cases h : s.offsets <;> simp [Session.read, behind, h]

@[simp] theorem readFor_behind (cache : Cache.State) :
    (s.behind threads agenda trace).readFor cache =
      ((s.readFor cache).1, (s.readFor cache).2.behind threads agenda trace) := by
  unfold readFor
  split
  · split
    · rfl
    · exact read_behind s threads agenda trace
  · rfl

@[simp] theorem takeReply_behind (r : Http.Request) :
    (s.behind threads agenda trace).takeReply r =
      ((s.takeReply r).1, (s.takeReply r).2.behind threads agenda trace) := by
  cases h : s.replies <;> simp [takeReply, behind, h]

theorem transmitWrapped_behind (r : Http.Request) :
    (s.behind threads agenda trace).transmitWrapped r =
      ((s.transmitWrapped r).1, (s.transmitWrapped r).2.behind threads agenda trace) := by
  have htake : (if Http.Network.leaves r then (s.behind threads agenda trace).takeReply r
      else ({ outcome := .error (unexpected r) }, s.behind threads agenda trace)) =
      let taken := if Http.Network.leaves r then s.takeReply r
        else ({ outcome := .error (unexpected r) }, s)
      (taken.1, taken.2.behind threads agenda trace) := by
    split
    · exact takeReply_behind s threads agenda trace r
    · rfl
  unfold transmitWrapped
  rw [htake]
  generalize (if Http.Network.leaves r then s.takeReply r
    else ({ outcome := .error (unexpected r) }, s)) = taken
  dsimp only
  generalize Http.Network.exchange none none r _ = exchanged
  obtain ⟨outcome, sent⟩ := exchanged
  cases sent <;> rfl

@[simp] theorem transmit_behind (r : Http.Request) :
    (s.behind threads agenda trace).transmit r =
      ((s.transmit r).1, (s.transmit r).2.behind threads agenda trace) := by
  unfold transmit
  change (if s.wraps then _ else _) = _
  split
  · exact transmitWrapped_behind s threads agenda trace r
  · simp

@[simp] theorem arrive_behind (reply : Reply) (job : Job) :
    (s.behind threads agenda trace).arrive reply job =
      (s.arrive reply job).behind threads agenda trace := by
  unfold arrive
  split
  · rfl
  · split
    · rfl
    · simp

@[simp] theorem finish_behind (e : Ending) :
    (s.behind threads agenda trace).finish e = (s.finish e).behind threads agenda trace := by
  cases e <;> simp [finish]

@[simp] theorem startOperation_behind (id : Cache.CallerId)
    (next : Result Token → Procedure Ending) :
    (s.behind threads agenda trace).startOperation id next =
      (s.startOperation id next).behind threads agenda trace := by
  have hscript : (s.behind threads agenda trace).script.getD
      (s.behind threads agenda trace).started none = s.script.getD s.started none := rfl
  simp only [startOperation, hscript]
  cases s.script.getD s.started none with
  | some outcome => exact doNext_behind { s with started := s.started + 1 } threads agenda trace _
  | none => exact block_behind { s with started := s.started + 1 } threads agenda trace id _

end Steps

theorem blind_advance (id : Cache.CallerId) (p : Procedure Ending) : Blind (advance id p) := by
  intro s threads agenda trace
  induction p generalizing s with
  | done outcome =>
    cases outcome with
    | error failure => rfl
    | ok e => exact finish_behind s threads agenda trace e
  | ask q next ih =>
    cases q with
    | now =>
      simp only [advance, read_behind]
      exact ih _ _
    | note n => exact ih () (s.observe (.noted n))
    | send r => simp [advance]
    | store call =>
      simp only [advance, observe_behind]
      exact doNext_behind { s.observe (.stored call) with store := (s.store.perform call).1 }
        threads agenda trace _
    | fetch c executor signal => simp [advance]
    | refresh c signal => simp [advance]
    | refreshIfExpired c signal => simp [advance]
    | credential c => exact ih _ s
    | cached c => exact ih _ s
    | freshness c =>
      simp only [advance, held?_behind, readFor_behind]
      exact ih _ _
    | create credential =>
      exact ih s.held.length
        { s with held := s.held ++ [{ credential, cache := { token := credential.token } }] }
    | redirect c source => exact ih () (s.modifyHeld c _)
    | listen c l =>
      exact ih ()
        ((s.modifyHeld c fun h => { h with listeners := h.listeners ++ [(l, 0)] }).stepCache
          c .direct (.listen (s.held? c).listeners.length))
    | callbackFailed c failure => exact ih () (s.stepCache c .direct (.callbackFailed failure))
    | operation c => exact startOperation_behind s threads agenda trace id next
    | gate name => exact block_behind s threads agenda trace id _
    | read path => rfl
    | rest => rfl

theorem blind_spawn (p : Procedure Ending) : Blind (·.spawn p) := by
  intro s threads agenda trace
  exact blind_advance s.born p { s with born := s.born + 1 } threads agenda trace

theorem blind_callListener (c : CredentialId) (k : Cache.RefreshId) (l : Cache.ListenerId) :
    Blind (·.callListener c k l) := by
  intro s threads agenda trace
  simp only [callListener, held?_behind]
  cases (s.held? c).listeners[l]? with
  | none => exact doNext_behind s threads agenda trace _
  | some found =>
    obtain ⟨listener, calls⟩ := found
    exact blind_spawn _ (s.modifyHeld c _) threads agenda trace

/-- Only an answer looks at those that wait. -/
theorem blind_perform {job : Job}
    (hjob : ∀ c executor id outcome, job ≠ .effect c executor (.answer id outcome)) :
    Blind (·.perform job) := by
  intro s threads agenda trace
  cases job with
  | resume id program => exact blind_advance id program s threads agenda trace
  | effect c executor e =>
    cases e with
    | log entry => rfl
    | run k => exact blind_spawn _ s threads agenda trace
    | hold k => cases executor <;> rfl
    | due k => exact doNext_behind s threads agenda trace _
    | notify k l => exact blind_callListener c k l s threads agenda trace
    | answer caller outcome => exact absurd rfl (hjob c executor caller outcome)
  | launch c k => rfl
  | process c k => rfl
  | listenerDone c k failure => rfl

end Bearer.Session
