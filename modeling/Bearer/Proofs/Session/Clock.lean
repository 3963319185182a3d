import Bearer.Proofs.Number.Instants
import Bearer.Proofs.Session.Uses

namespace Bearer.Session

open Relation (ReflTransGen)

variable {s s' t : Session} {programs : Procedure Ending → Prop}

theorem now_read (s : Session) : s.read.2.now = s.now := by
  unfold Session.read
  split <;> rfl

theorem now_readFor (s : Session) (cache : Cache.State) : (s.readFor cache).2.now = s.now := by
  unfold readFor
  split
  · split
    · rfl
    · exact now_read s
  · rfl

theorem now_takeReply (s : Session) (r : Http.Request) : (s.takeReply r).2.now = s.now := by
  unfold takeReply
  split <;> rfl

theorem now_transmit (s : Session) (r : Http.Request) : (s.transmit r).2.now = s.now := by
  unfold transmit
  split
  · have htake : (if Http.Network.leaves r then s.takeReply r
        else ({ outcome := .error (unexpected r) }, s)).2.now = s.now := by
      split
      · exact now_takeReply s r
      · rfl
    unfold transmitWrapped
    generalize (if Http.Network.leaves r then s.takeReply r
      else ({ outcome := .error (unexpected r) }, s)) = taken at htake
    dsimp only
    split <;> exact htake
  · exact now_takeReply _ r

theorem now_arrive (s : Session) (reply : Reply) (job : Job) :
    (s.arrive reply job).now = s.now := by
  unfold arrive
  split
  · rfl
  · split <;> rfl

theorem now_finish (s : Session) (e : Ending) : (s.finish e).now = s.now := by
  cases e <;> rfl

theorem now_startOperation (s : Session) (i : Cache.CallerId)
    (next : Result Token → Procedure Ending) : (s.startOperation i next).now = s.now := by
  unfold startOperation
  dsimp only
  split <;> rfl

theorem now_advance (i : Cache.CallerId) (p : Procedure Ending) (s : Session) :
    (advance i p s).now = s.now := by
  induction p generalizing s with
  | done outcome =>
    cases outcome with
    | error failure => rfl
    | ok e => exact now_finish s e
  | ask q next ih =>
    cases q with
    | now => exact (ih _ _).trans (now_read s)
    | freshness c => exact (ih _ _).trans (now_readFor s _)
    | send r => exact (now_arrive _ _ _).trans (now_transmit s r)
    | fetch c executor signal =>
      rw [advance_fetch]
      exact (now_readFor _ _).trans (now_readFor s _)
    | refreshIfExpired c signal => exact now_readFor s _
    | operation => exact now_startOperation s i next
    | note | credential | cached | create | redirect | listen | callbackFailed =>
      exact (ih _ _).trans rfl
    | read | store | refresh | gate | rest => rfl

theorem now_callListener (s : Session) (c : CredentialId) (k : Cache.RefreshId)
    (l : Cache.ListenerId) : (s.callListener c k l).now = s.now := by
  unfold callListener
  split
  · rfl
  · exact now_advance _ _ _

theorem now_answer (s : Session) (i : Cache.CallerId) (r : Result (Option Token)) :
    (s.answer i r).now = s.now := by
  unfold Session.answer
  split <;> rfl

/-- Work takes no time. -/
theorem now_perform (s : Session) (job : Job) : (s.perform job).now = s.now := by
  cases job with
  | resume i p => exact now_advance i p s
  | launch | process | listenerDone => rfl
  | effect c executor effect =>
    cases effect with
    | log | due => rfl
    | run k => exact now_advance _ _ _
    | hold k => cases executor <;> rfl
    | notify k l => exact now_callListener s c k l
    | answer i r => exact now_answer s i r

/-- What the clock may be read as in a step, which may begin with the passing of time. -/
def Reads (s s' : Session) (reading : Double) : Prop :=
  ({ s with now := s'.now } : Session).Shows reading

theorem reads_work {job : Job} (htake : s.takeJob? = some (job, t)) {reading : Double}
    (h : t.Shows reading) : s.Reads (t.perform job) reading := by
  have hoffsets : t.offsets = s.offsets := by
    cases takes_of_takeJob htake <;> rfl
  exact h.before (now_perform t job).symm (hoffsets ▸ List.suffix_rfl)

/-- The clock goes on in whole milliseconds, and is read as it is. -/
structure Ticks (s s' : Session) : Prop where
  unshifted : s.offsets = []
  instants : ∃ a b : Int, (Time.isValid a = true ∧ Time.isValid b = true) ∧ a ≤ b ∧
    s.now = Double.ofInt a ∧ s'.now = Double.ofInt b

/-- A step in which the clock goes on. -/
def Steady (programs : Procedure Ending → Prop) (s s' : Session) : Prop :=
  Use programs s s' ∧ Ticks s s'

theorem Ticks.reads (h : Ticks s s') {reading : Double} (hreads : s.Reads s' reading) :
    reading = s'.now := by
  rcases hreads with hnow | ⟨offset, hmem, -⟩
  · exact hnow
  · rw [h.unshifted] at hmem
    cases hmem

theorem ofInt_valid_inj {a b : Int} (ha : Time.isValid a = true) (hb : Time.isValid b = true)
    (h : Double.ofInt a = Double.ofInt b) : a = b := by
  rw [Double.ofInt_eq (Time.natAbs_of_isValid ha), Double.ofInt_eq (Time.natAbs_of_isValid hb)] at h
  exact Int.cast_inj.mp (Double.finite.inj h)

/-- In a run of such steps no reading is followed by an earlier one. -/
theorem clock_of_steady {a : Int} (ha : Time.isValid a = true) (hnow : s.now = Double.ofInt a)
    (hrun : ReflTransGen (Steady programs) s s') :
    ∃ b, Time.isValid b = true ∧ a ≤ b ∧ s'.now = Double.ofInt b := by
  induction hrun with
  | refl => exact ⟨a, ha, Int.le_refl a, hnow⟩
  | tail _ hstep ih =>
    obtain ⟨b, hb, hab, hbnow⟩ := ih
    obtain ⟨-, -, b', c, ⟨hb', hc⟩, hbc, hbnow', hcnow⟩ := hstep
    obtain rfl := ofInt_valid_inj hb hb' (hbnow.symm.trans hbnow')
    exact ⟨c, hc, Int.le_trans hab hbc, hcnow⟩

end Bearer.Session
