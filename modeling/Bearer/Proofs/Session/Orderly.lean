import Bearer.Proofs.Session.Course

namespace Bearer.Session

variable {i : Cache.CallerId} {s s' t : Session} {job : Job}

/-- The credential whose cache a job has to do with. -/
def Job.credential? : Job → Option CredentialId
  | .effect c _ _ | .launch c _ | .process c _ | .listenerDone c _ _ => some c
  | .resume .. => none

section Everyone
variable {rules rules' : Rules}

theorem Everyone.spared (h : Everyone rules s) (hspares : ∀ i, Spares i s s')
    (hborn : s.born ≤ s'.born) : Everyone rules s' where
  position i := (h.position i).spared (hspares i)
  unborn i hi := (h.unborn i (Nat.le_trans hborn hi)).spared (hspares i)

/-- All threads but one are somewhere. -/
structure Others (rules : Rules) (i : Cache.CallerId) (s : Session) : Prop where
  position : ∀ j, j ≠ i → Position rules j s
  unborn : ∀ j, j ≠ i → s.born ≤ j → Idle j s

theorem Everyone.others (h : Everyone rules s) (i : Cache.CallerId) : Others rules i s :=
  ⟨fun j _ => h.position j, fun j _ => h.unborn j⟩

theorem Others.everyone (h : Others rules i s) (hi : i < s.born)
    (hposition : Position rules i s) : Everyone rules s where
  position j := by
    by_cases hj : j = i
    · exact hj ▸ hposition
    · exact h.position j hj
  unborn j hj := h.unborn j (fun hji => absurd (hji ▸ hj) (Nat.not_le_of_lt hi)) hj

theorem Others.spared (h : Others rules i s) (hspares : ∀ j, j ≠ i → Spares j s s')
    (hborn : s.born ≤ s'.born) : Others rules i s' where
  position j hj := (h.position j hj).spared (hspares j hj)
  unborn j hj hborn' := (h.unborn j hj (Nat.le_trans hborn hborn')).spared (hspares j hj)

theorem Others.stepCache (h : Others rules i s) (c : CredentialId) (executor : Executor)
    {e : Cache.Event} (hparty : ∀ j, j ≠ i → e.party? ≠ some j)
    (hlawful : Lawful rules (s.stepCache c executor e) c) :
    Others rules i (s.stepCache c executor e) where
  position j hj := (h.position j hj).stepCache c executor (hparty j hj) hlawful
  unborn j hj hborn := (h.unborn j hj hborn).stepCache c executor (hparty j hj)

theorem Everyone.stepCache (h : Everyone rules s) (c : CredentialId) (executor : Executor)
    {e : Cache.Event} (hparty : e.party? = none)
    (hlawful : Lawful rules (s.stepCache c executor e) c) :
    Everyone rules (s.stepCache c executor e) where
  position j := (h.position j).stepCache c executor (by simp [hparty]) hlawful
  unborn j hborn := (h.unborn j hborn).stepCache c executor (by simp [hparty])

end Everyone

/-- What is cached, under way and seen in a session is in order, if these were the
circumstances when the last program went on. -/
structure Tidy (d : Discipline) (replies : List Reply) (v : View) (s : Session) : Prop where
  plain : s.wraps = false
  upcoming : s.replies = replies.drop s.requests.length
  contacts : s.contacts replies = v.contacts
  good : d.good v
  caches : ∀ c, (s.held? c).cache.Holds (d.token v.contacts c)
  latest : ∀ c, (s.held? c).cache.SlotLatest
  unused : ∀ c, ¬ d.takesPart c →
    (s.held? c).cache = .initial (s.held? c).credential.token
  deaf : ∀ c, (s.held? c).listeners = []
  jobs : ∀ job ∈ s.jobs, ∀ c, job.credential? = some c → d.takesPart c
  seen : ∀ o ∈ s.trace, d.sees v.contacts o

/-- A session is in order with all that its threads are about to do. -/
structure Orderly (d : Discipline) (replies : List Reply) (v : View) (s : Session) : Prop extends
    Tidy d replies v s where
  everyone : Everyone (d.rules v) s

namespace Tidy

variable {d : Discipline} {replies : List Reply} {v v' : View}

/-- A listener that nobody has handed in has nothing to do. -/
theorem callListener_eq (h : Tidy d replies v s) (c : CredentialId) (k : Cache.RefreshId)
    (l : Cache.ListenerId) : s.callListener c k l = s.doNext (.listenerDone c k none) := by
  unfold callListener
  rw [h.deaf c]
  rfl

theorem change (h : Tidy d replies v s) (hheld : s'.held = s.held) (htrace : s'.trace = s.trace)
    (hreplies : s'.replies = s.replies) (hwraps : s'.wraps = s.wraps)
    (hjobs : ∀ job ∈ s'.jobs, job ∈ s.jobs ∨ ∀ c, job.credential? = some c → d.takesPart c) :
    Tidy d replies v s' := by
  have hsame : ∀ c, s'.held? c = s.held? c := fun c => by rw [held?, held?, hheld]
  have hrequests : s'.requests = s.requests := by rw [requests, requests, htrace]
  refine ⟨hwraps.trans h.plain, ?_, (contacts_of_trace hrequests).trans h.contacts, h.good,
    fun c => ?_, fun c => ?_, fun c hc => ?_, fun c => ?_, fun job hjob => ?_, fun o ho => ?_⟩
  · rw [hreplies, hrequests, h.upcoming]
  · rw [hsame]
    exact h.caches c
  · rw [hsame]
    exact h.latest c
  · rw [hsame]
    exact h.unused c hc
  · rw [hsame]
    exact h.deaf c
  · exact (hjobs job hjob).elim (h.jobs job) id
  · exact h.seen o (htrace ▸ ho)

theorem later (h : Tidy d replies v s) (hlater : d.Later v v')
    (hcontacts : s.contacts replies = v'.contacts) : Tidy d replies v' s where
  plain := h.plain
  upcoming := h.upcoming
  contacts := hcontacts
  good := hlater.good
  caches c := (h.caches c).mono fun _ => d.token_mono hlater.contacts
  latest := h.latest
  unused := h.unused
  deaf := h.deaf
  jobs := h.jobs
  seen o ho := d.sees_mono hlater.contacts (h.seen o ho)

theorem observe (h : Tidy d replies v s) {o : Observation} (ho : d.sees v.contacts o)
    (hrequest : o.request? = none) : Tidy d replies v (s.observe o) := by
  have hrequests : (s.observe o).requests = s.requests := by
    simp [requests, Session.observe, hrequest]
  refine ⟨h.plain, ?_, (contacts_of_trace hrequests).trans h.contacts, h.good, h.caches,
    h.latest, h.unused, h.deaf, h.jobs, List.forall_mem_cons.mpr ⟨ho, h.seen⟩⟩
  rw [hrequests]
  exact h.upcoming

/-- The tokens with which refreshes end are such as the discipline says. -/
theorem lawful (h : Tidy d replies v s) (c : CredentialId) (executor : Executor)
    {e : Cache.Event} (he : ∀ k t, e = .settle k (.ok t) → d.token v.contacts c t) :
    Lawful (d.rules v) (s.stepCache c executor e) c := by
  intro k t hk
  rw [held?_stepCache] at hk
  split at hk
  · exact (Cache.State.holds_step ⟨(s.held? c).credential.logging⟩ (h.caches c) he).brought
      k _ t hk rfl
  · exact (h.caches c).brought k _ t hk rfl

theorem stepCache (h : Tidy d replies v s) {c : CredentialId} (hc : d.takesPart c)
    (executor : Executor) {e : Cache.Event}
    (he : ∀ k t, e = .settle k (.ok t) → d.token v.contacts c t) :
    Tidy d replies v (s.stepCache c executor e) := by
  refine ⟨h.plain, h.upcoming, h.contacts, h.good, fun b => ?_, fun b => ?_, fun b hb => ?_,
    fun b => ?_, fun job hjob => ?_, h.seen⟩
  · rw [held?_stepCache]
    split
    · next hand =>
      obtain ⟨rfl, -⟩ := hand
      exact Cache.State.holds_step _ (h.caches b) he
    · exact h.caches b
  · rw [held?_stepCache]
    split
    · exact Cache.State.slotLatest_step _ _ _ (h.latest b)
    · exact h.latest b
  · have hbc : ¬ (b = c ∧ b < s.held.length) := fun hand => hb (hand.1 ▸ hc)
    rw [held?_stepCache, if_neg hbc]
    exact h.unused b hb
  · rw [held?_stepCache]
    split <;> exact h.deaf b
  · rw [stepCache_jobs, List.mem_append, List.mem_map] at hjob
    rcases hjob with ⟨effect, -, rfl⟩ | hjob
    · rintro b ⟨⟩
      exact hc
    · exact h.jobs job hjob

theorem create (h : Tidy d replies v s) {credential : Credential}
    (htoken : credential.token = none) :
    Tidy d replies v
      { s with held := s.held ++ [{ credential, cache := { token := credential.token } }] } := by
  refine ⟨h.plain, h.upcoming, h.contacts, h.good, fun c => ?_, fun c => ?_, fun c hc => ?_,
    fun c => ?_, h.jobs, h.seen⟩
  · rw [held?_create]
    split
    · refine Cache.State.holds_initial fun t ht => ?_
      rw [htoken] at ht
      cases ht
    · exact h.caches c
  · rw [held?_create]
    split
    · exact Cache.State.slotLatest_initial _
    · exact h.latest c
  · rw [held?_create]
    split
    · rfl
    · exact h.unused c hc
  · rw [held?_create]
    split
    · rfl
    · exact h.deaf c

theorem redirect (h : Tidy d replies v s) (c source : CredentialId) :
    Tidy d replies v (s.modifyHeld c fun h =>
      { h with credential := h.credential.redirected source }) := by
  have htoken : ∀ credential : Credential,
      (credential.redirected source).token = credential.token := by
    intro credential
    unfold Credential.redirected
    split <;> rfl
  refine ⟨h.plain, h.upcoming, h.contacts, h.good, fun b => ?_, fun b => ?_, fun b hb => ?_,
    fun b => ?_, h.jobs, h.seen⟩
  · rw [held?_modifyHeld]
    split <;> exact h.caches b
  · rw [held?_modifyHeld]
    split <;> exact h.latest b
  · rw [held?_modifyHeld]
    split
    · rw [htoken]
      exact h.unused b hb
    · exact h.unused b hb
  · rw [held?_modifyHeld]
    split <;> exact h.deaf b

theorem stride (h : Tidy d replies v s) (hstride : Stride d replies s t) :
    Tidy d replies v t := by
  cases hstride with
  | reading => exact h.change rfl rfl rfl rfl fun _ hjob => .inl hjob
  | note n hn => exact h.observe (h.contacts ▸ hn) rfl
  | create credential htoken => exact h.create htoken
  | redirect c source => exact h.redirect c source
  | warn c failure hc => exact h.stepCache hc .direct nofun

theorem strides (h : Tidy d replies v s) (hstrides : Strides d replies s t) :
    Tidy d replies v t := by
  induction hstrides with
  | refl => exact h
  | tail _ hstride ih => exact ih.stride hstride

end Tidy

namespace Orderly

variable {d : Discipline} {replies : List Reply} {v v' : View}

theorem later (h : Orderly d replies v s) (hlater : d.Later v v')
    (hcontacts : s.contacts replies = v'.contacts) : Orderly d replies v' s :=
  ⟨h.toTidy.later hlater hcontacts,
    fun i => Discipline.position_later (h.everyone.position i) hlater, h.everyone.unborn⟩

theorem observe (h : Orderly d replies v s) {o : Observation} (ho : d.sees v.contacts o)
    (hrequest : o.request? = none) : Orderly d replies v (s.observe o) :=
  ⟨h.toTidy.observe ho hrequest,
    h.everyone.spared (fun _ => .of_held rfl rfl .rfl) (Nat.le_refl _)⟩

theorem stepCache (h : Orderly d replies v s) {c : CredentialId} (hc : d.takesPart c)
    (executor : Executor) {e : Cache.Event} (hparty : e.party? = none)
    (he : ∀ k t, e = .settle k (.ok t) → d.token v.contacts c t) :
    Orderly d replies v (s.stepCache c executor e) :=
  ⟨h.toTidy.stepCache hc executor he,
    h.everyone.stepCache c executor hparty (h.lawful c executor he)⟩

theorem stride (h : Orderly d replies v s) (hstride : Stride d replies s t) :
    Orderly d replies v t := by
  refine ⟨h.toTidy.stride hstride, ?_⟩
  cases hstride with
  | reading | note => exact h.everyone.spared (fun _ => .of_held rfl rfl .rfl) (Nat.le_refl _)
  | create credential =>
    exact h.everyone.spared (fun _ => spares_create credential) (Nat.le_refl _)
  | redirect c source =>
    exact h.everyone.spared (fun _ => spares_reshape c fun _ => rfl) (Nat.le_refl _)
  | warn c failure => exact h.everyone.stepCache c .direct rfl (h.lawful c .direct nofun)

theorem strides (h : Orderly d replies v s) (hstrides : Strides d replies s t) :
    Orderly d replies v t := by
  induction hstrides with
  | refl => exact h
  | tail _ hstride ih => exact ih.stride hstride

end Orderly

section Strides
variable {d : Discipline} {replies : List Reply}

theorem Stride.idle (h : Stride d replies s t) (hidle : Idle i s) : Idle i t := by
  cases h with
  | reading | note => exact hidle.spared (.of_held rfl rfl .rfl)
  | create credential => exact hidle.spared (spares_create credential)
  | redirect c source => exact hidle.spared (spares_reshape c fun _ => rfl)
  | warn c failure => exact hidle.stepCache c .direct nofun

theorem Strides.idle (h : Strides d replies s t) (hidle : Idle i s) : Idle i t := by
  induction h with
  | refl => exact hidle
  | tail _ hstride ih => exact hstride.idle ih

theorem Strides.born (h : Strides d replies s t) : t.born = s.born := by
  induction h with
  | refl => rfl
  | tail _ hstride ih =>
    refine Eq.trans ?_ ih
    cases hstride <;> rfl

end Strides

/-- A request leaves with what comes of it settled, and the thread goes on with that later, if
at all. -/
theorem advance_send {replies : List Reply} (hplain : s.wraps = false)
    (hupcoming : s.replies = replies.drop s.requests.length) (i : Cache.CallerId)
    (r : Http.Request) (next : Result Http.Response → Procedure Ending) :
    ∃ reply, advance i (.ask (.send r) next) s =
      ({ s.observe (.sent r) with replies := replies.drop (s.requests.length + 1) } :
        Session).arrive reply (.resume i (next (answerAt replies s.requests.length r))) := by
  have hhead : replies[s.requests.length]? = s.replies.head? := by
    rw [hupcoming, List.head?_drop]
  have htail : replies.drop (s.requests.length + 1) = s.replies.tail := by
    rw [hupcoming, List.tail_drop]
  have hadvance : advance i (.ask (.send r) next) s =
      ((s.observe (.sent r)).takeReply r).2.arrive ((s.observe (.sent r)).takeReply r).1
        (.resume i (next ((s.observe (.sent r)).takeReply r).1.outcome)) := by
    have htransmit : s.transmit r = (s.observe (.sent r)).takeReply r := by
      rw [transmit, if_neg (by simp [hplain])]
    rw [← htransmit]
    rfl
  refine ⟨((s.observe (.sent r)).takeReply r).1, ?_⟩
  rw [hadvance, answerAt, hhead, htail]
  have hreplies : (s.observe (.sent r)).replies = s.replies := rfl
  unfold takeReply
  rw [hreplies]
  cases hs : s.replies with
  | nil =>
    have hsame : s.observe (.sent r) = { s.observe (.sent r) with replies := [] } := by
      rw [← hs]
      rfl
    dsimp only [List.head?_nil, List.tail_nil]
    rw [← hsame]
  | cons reply rest => rfl

theorem held_send {replies : List Reply} (hplain : s.wraps = false)
    (hupcoming : s.replies = replies.drop s.requests.length) (i : Cache.CallerId)
    (r : Http.Request) (next : Result Http.Response → Procedure Ending) :
    (advance i (.ask (.send r) next) s).held = s.held := by
  obtain ⟨reply, hadvance⟩ := advance_send hplain hupcoming i r next
  rw [hadvance]
  rcases arrive_cases { s.observe (.sent r) with replies := replies.drop (s.requests.length + 1) }
    reply (.resume i (next (answerAt replies s.requests.length r))) with ⟨-, hlost⟩ | hput
  · rw [hlost]
    rfl
  · exact hput.held

namespace Orderly
variable {d : Discipline} {replies : List Reply} {v : View}

theorem resume (h : Orderly d replies v s) (hidle : Idle i s) (hi : i < s.born)
    {p : Procedure Ending} (hp : (d.rules v).going p) (hput : s.Puts (.resume i p) s') :
    Orderly d replies v s' := by
  have hborn : s'.born = s.born := hput.born
  have hothers := (h.everyone.others i).spared
    (fun j hj => spares_put hput (by simpa [Job.party?] using Ne.symm hj)) (Nat.le_of_eq hborn.symm)
  have heveryone := hothers.everyone (hborn ▸ hi) (position_put hidle hput hp)
  have hjobs : ∀ job ∈ s'.jobs, job ∈ s.jobs ∨ ∀ c, job.credential? = some c → d.takesPart c := by
    intro job hjob
    rcases hput.mem_jobs hjob with rfl | hjob
    · exact .inr fun c hc => absurd hc (Option.some_ne_none c).symm
    · exact .inl hjob
  refine ⟨?_, heveryone⟩
  cases hput <;> exact h.change rfl rfl rfl rfl hjobs

theorem call (h : Orderly d replies v s) (hidle : Idle i s) (hi : i < s.born) {c : CredentialId}
    (hc : c < s.held.length) {signal : Option Signal}
    {next : Result (Option Token) → Procedure Ending} (hnext : (d.rules v).waits c signal next)
    (executor : Executor) {e : Cache.Event} (hcall : e.caller? = some i)
    (haborted : e.aborted? = s.reason? signal) :
    Orderly d replies v ((s.block i (.token c signal next)).stepCache c executor e) := by
  have hpart : d.takesPart c := hnext.1
  have hsettle : ∀ k t, e = .settle k (.ok t) → d.token v.contacts c t := by
    rintro k t rfl
    cases hcall
  have hparty : e.party? = some i := Cache.party_of_caller hcall
  have hlawful : Lawful (d.rules v)
      ((s.block i (.token c signal next)).stepCache c executor e) c := h.lawful c executor hsettle
  have hothers := ((h.everyone.others i).spared (fun j hj => spares_block
    (.token c signal next) (Ne.symm hj)) (Nat.le_refl _)).stepCache c executor
    (fun j hj => by rw [hparty]; simpa using Ne.symm hj) hlawful
  have hreply : ∀ r, (s.held? c).cache.reply? e = some r → Given (d.rules v) s c signal r := by
    intro r hr
    rcases Cache.State.reply_cases hr with rfl | rfl | ⟨reason, hreason, rfl⟩
    · cases htoken : (s.held? c).cache.token with
      | none => trivial
      | some t => exact (h.caches c).cached t htoken
    · trivial
    · rw [haborted] at hreason
      rintro rfl
      cases hreason
  have hposition := position_call c executor hidle hc (h.latest c) hcall hnext hreply
  have hblock : Tidy d replies v (s.block i (.token c signal next)) :=
    h.change rfl rfl rfl rfl fun _ hjob => .inl hjob
  exact ⟨hblock.stepCache hpart executor hsettle, hothers.everyone hi hposition⟩

end Orderly

/-- A session is in order again, under circumstances that have come of the former ones. -/
structure Lands (d : Discipline) (replies : List Reply) (s s' : Session) : Prop where
  orderly : Orderly d replies (s'.view replies) s'
  later : d.Later (s.view replies) (s'.view replies)

section Lands
variable {d : Discipline} {replies : List Reply} {v start : View} {p : Procedure Ending}

theorem Puts.view (h : s.Puts job s') : s'.view replies = s.view replies := by
  cases h <;> rfl

theorem Lands.of_view (h : Orderly d replies (s.view replies) s')
    (hview : s'.view replies = s.view replies) : Lands d replies s s' :=
  ⟨hview.symm ▸ h, hview.symm ▸ .refl h.good⟩

theorem Lands.trans {s'' : Session} (h : Lands d replies s s') (h' : Lands d replies s' s'') :
    Lands d replies s s'' :=
  ⟨h'.orderly, h.later.trans h'.later⟩

theorem Discipline.Keeps.later (h : d.Keeps start v p) (hrests : p.Rests) : d.Later start v := by
  cases p with
  | done outcome => exact h.1
  | ask q next =>
    cases q with
    | send | read | rest | fetch | refresh | refreshIfExpired => exact h.1
    | _ => exact hrests.elim

theorem Tidy.sent (h : Tidy d replies (s.view replies) s) {r : Http.Request}
    {next : Result Http.Response → Procedure Ending} (hr : d.sends (s.view replies) r next) :
    Tidy d replies ((s.view replies).met r (answerAt replies s.requests.length r))
      { s.observe (.sent r) with replies := replies.drop (s.requests.length + 1) } := by
  have hlater := Discipline.Later.met h.good hr (answerAt replies s.requests.length r)
  refine ⟨h.plain, rfl, rfl, hlater.good, fun c => ?_, h.latest, h.unused, h.deaf, h.jobs, ?_⟩
  · exact (h.caches c).mono fun _ => d.token_mono hlater.contacts
  · refine List.forall_mem_cons.mpr ⟨d.sees_sent _ r, fun o ho => ?_⟩
    exact d.sees_mono hlater.contacts (h.seen o ho)

theorem lands_send (h : Orderly d replies (s.view replies) s) (hidle : Idle i s)
    (hi : i < s.born) {r : Http.Request} {next : Result Http.Response → Procedure Ending}
    (hr : d.sends (s.view replies) r next)
    (hnext : ∀ outcome v', d.Later ((s.view replies).met r outcome) v' →
      d.Keeps v' v' (next outcome)) :
    Lands d replies s (advance i (.ask (.send r) next) s) := by
  obtain ⟨reply, hadvance⟩ := advance_send h.plain h.upcoming i r next
  rw [hadvance]
  have hlater := Discipline.Later.met h.good hr (answerAt replies s.requests.length r)
  have hspared : ∀ j, Spares j s
      { s.observe (.sent r) with replies := replies.drop (s.requests.length + 1) } :=
    fun j => .of_held rfl rfl .rfl
  have hsent : Orderly d replies
      ((s.view replies).met r (answerAt replies s.requests.length r))
      { s.observe (.sent r) with replies := replies.drop (s.requests.length + 1) } := by
    refine ⟨h.toTidy.sent hr, ?_⟩
    have heveryone := h.everyone.spared hspared (Nat.le_refl _)
    exact ⟨fun j => Discipline.position_later (heveryone.position j) hlater, heveryone.unborn⟩
  have hgoing := hnext (answerAt replies s.requests.length r)
  rcases arrive_cases { s.observe (.sent r) with replies := replies.drop (s.requests.length + 1) }
    reply (.resume i (next (answerAt replies s.requests.length r))) with ⟨-, hlost⟩ | hput
  · rw [hlost]
    exact ⟨hsent, hlater⟩
  · have hview : (arrive _ reply _).view replies =
        (s.view replies).met r (answerAt replies s.requests.length r) := hput.view
    exact ⟨hview ▸ hsent.resume (hidle.spared (hspared i)) hi hgoing hput, hview ▸ hlater⟩

theorem lands_finish (h : Orderly d replies (s.view replies) s) {e : Ending}
    (he : d.Ends (s.view replies) (.ok e)) : Lands d replies s (s.finish e) := by
  cases e with
  | operation c k outcome =>
    obtain ⟨hpart, htoken⟩ := he
    have hsettle : ∀ k' t, Cache.Event.settle k outcome = .settle k' (.ok t) →
        d.token (s.view replies).contacts c t := by
      rintro k' t ⟨⟩
      exact htoken t rfl
    exact .of_view (h.stepCache hpart .direct rfl hsettle) (view_stepCache c .direct _)
  | listener => exact he.elim
  | call name outcome => exact .of_view (h.observe he rfl) rfl
  | nothing => exact .of_view h rfl

theorem lands_call (h : Orderly d replies (s.view replies) s) (hidle : Idle i s)
    (hi : i < s.born) {c : CredentialId} (hc : c < (s.view replies).table.length)
    {signal : Option Signal} {next : Result (Option Token) → Procedure Ending}
    (hnext : (d.rules (s.view replies)).waits c signal next) (executor : Executor)
    {e : Cache.Event} (hcall : e.caller? = some i) (haborted : e.aborted? = s.reason? signal) :
    Lands d replies s ((s.block i (.token c signal next)).stepCache c executor e) := by
  rw [view_length] at hc
  exact .of_view (h.call hidle hi hc hnext executor hcall haborted)
    (view_stepCache (s := s.block i _) c executor e)

theorem lands_call_reading (h : Orderly d replies (s.view replies) s) (hidle : Idle i s)
    (hi : i < s.born) {c : CredentialId} (hc : c < (s.view replies).table.length)
    {signal : Option Signal} {next : Result (Option Token) → Procedure Ending}
    (hnext : (d.rules (s.view replies)).waits c signal next) {offsets : List Double}
    (hsuffix : offsets <:+ s.offsets) (executor : Executor) {e : Cache.Event}
    (hcall : e.caller? = some i) (haborted : e.aborted? = s.reason? signal) :
    Lands d replies s ((({ s with offsets } : Session).block i (.token c signal next)).stepCache c
      executor e) := by
  have hread : Orderly d replies (s.view replies) { s with offsets } := h.stride (.reading hsuffix)
  have hidle' : Idle i { s with offsets } := hidle.spared (.of_held rfl rfl .rfl)
  have hlands :=
    lands_call (s := { s with offsets }) hread hidle' hi hc hnext executor hcall haborted
  exact ⟨hlands.orderly, hlands.later⟩

theorem lands_rest (h : Orderly d replies (s.view replies) s) (hidle : Idle i s)
    (hi : i < s.born) (hrests : p.Rests) (hp : d.Keeps start (s.view replies) p) :
    Lands d replies s (advance i p s) := by
  have hput {p' : Procedure Ending} (hgoing : (d.rules (s.view replies)).going p') {s' : Session}
      (hput : s.Puts (.resume i p') s') : Lands d replies s s' :=
    .of_view (h.resume hidle hi hgoing hput) hput.view
  cases p with
  | done outcome =>
    cases outcome with
    | error failure => exact .of_view h rfl
    | ok e => exact lands_finish h hp.2
  | ask q next =>
    cases q with
    | send r =>
      obtain ⟨-, hr, hnext⟩ := hp
      exact lands_send h hidle hi hr hnext
    | read path =>
      obtain ⟨-, hnext⟩ := hp
      exact hput (hnext (s.folder.read? path)) .later
    | rest =>
      obtain ⟨-, hnext⟩ := hp
      exact hput hnext .later
    | fetch c executor signal =>
      obtain ⟨-, ⟨hpart, hc, -⟩, hawaits, hnext⟩ := hp
      obtain ⟨t, offsets, first, second, rfl, hsuffix, -, hadvance⟩ :=
        advance_fetch_cases s i c executor signal next
      rw [hadvance]
      exact lands_call_reading h hidle hi hc ⟨hpart, hawaits, hnext⟩ hsuffix executor rfl rfl
    | refresh c signal =>
      obtain ⟨-, ⟨hpart, hc, -⟩, hawaits, hnext⟩ := hp
      exact lands_call h hidle hi hc ⟨hpart, hawaits, hnext⟩ .direct rfl rfl
    | refreshIfExpired c signal =>
      obtain ⟨-, ⟨hpart, hc, -⟩, hawaits, hnext⟩ := hp
      obtain ⟨t, offsets, reading, rfl, hsuffix, hadvance⟩ :=
        advance_refreshIfExpired_cases s i c signal next
      rw [hadvance]
      exact lands_call_reading h hidle hi hc ⟨hpart, hawaits, hnext⟩ hsuffix .direct rfl rfl
    | _ => exact hrests.elim

/-- A program that keeps the discipline leaves a session in order. -/
theorem lands_advance (h : Orderly d replies v s) (hidle : Idle i s) (hi : i < s.born)
    (hp : d.Keeps v (s.view replies) p) :
    Orderly d replies ((advance i p s).view replies) (advance i p s) ∧
      d.Later v ((advance i p s).view replies) := by
  obtain ⟨t, p', hstrides, -, hrests, hkeeps, hadvance⟩ := advance_course i hp
  have hlater : d.Later v (t.view replies) := Discipline.Keeps.later hkeeps hrests
  have ht : Orderly d replies (t.view replies) t := (h.strides hstrides).later hlater rfl
  have hlands := lands_rest ht (hstrides.idle hidle) (hstrides.born ▸ hi) hrests hkeeps
  rw [hadvance]
  exact ⟨hlands.orderly, hlater.trans hlands.later⟩

theorem lands_spawn (h : Orderly d replies (s.view replies) s)
    (hp : d.Keeps (s.view replies) (s.view replies) p) : Lands d replies s (s.spawn p) := by
  have hspares : ∀ j, Spares j s { s with born := s.born + 1 } := fun j => .of_held rfl rfl .rfl
  have hbirth : Orderly d replies (s.view replies) { s with born := s.born + 1 } :=
    ⟨h.change rfl rfl rfl rfl fun _ hjob => .inl hjob,
      h.everyone.spared hspares (Nat.le_succ s.born)⟩
  have hidle := (h.everyone.unborn s.born (Nat.le_refl _)).spared (hspares s.born)
  have hadvance := lands_advance (s := { s with born := s.born + 1 }) hbirth hidle
    (Nat.lt_succ_self s.born) hp
  exact ⟨hadvance.1, hadvance.2⟩

end Lands

end Bearer.Session
