import Bearer.Proofs.Credential.ScopedSource
import Bearer.Proofs.Session.Clock

namespace Bearer

namespace Session

variable {s t : Session} {L : Option Token → Prop}

/-- A token has lapsed that any reading of the clock shows not to be fresh. -/
def Judges (L : Option Token → Prop) (s : Session) : Prop :=
  ∀ reading (cache : Cache.State), s.Shows reading → cache.freshness reading ≠ .fresh →
    L cache.token

theorem Judges.later (h : s.Judges L) (hnow : t.now = s.now) (hoffsets : t.offsets <:+ s.offsets) :
    t.Judges L :=
  fun reading cache hshows => h reading cache (hshows.before hnow hoffsets)

theorem Strides.clock {d : Discipline} {replies : List Session.Reply} (h : Strides d replies s t) :
    t.now = s.now ∧ t.offsets <:+ s.offsets := by
  induction h with
  | refl => exact ⟨rfl, List.suffix_rfl⟩
  | tail _ hstride ih =>
    obtain ⟨hnow, hoffsets⟩ := ih
    cases hstride with
    | reading hsuffix => exact ⟨hnow, hsuffix.trans hoffsets⟩
    | _ => exact ⟨hnow, hoffsets⟩

end Session

namespace Impersonation

open Session

variable (m : Impersonation)

open Classical in
/-- How many requests for tokens of the copy were sent. -/
noncomputable def sent (s : Session) : Nat := s.requests.countP fun r => m.widened.Requests r

def settled (s : Session) : Nat :=
  (s.held? copy).cache.refreshes.countP fun r => r.stage.isSettled

/-- What part a program may have in the refreshes of the copy. -/
inductive Role : Procedure Ending → Prop
  | other {p : Procedure Ending} (h : ∀ k, Elsewhere copy k p) : Role p
  | send {r : Http.Request} (hr : m.widened.Requests r) (k : Cache.RefreshId) :
      Role (.ask (.send r) (received k))
  | receive (k : Cache.RefreshId) (outcome : Result Http.Response) : Role (received k outcome)

/-- Work that leads to a request for a token of the copy. -/
inductive Owes : Job → Prop
  | run (executor : Executor) (k : Cache.RefreshId) : Owes (.effect copy executor (.run k))
  | send (i : Cache.CallerId) {r : Http.Request} (hr : m.widened.Requests r)
      (k : Cache.RefreshId) : Owes (.resume i (.ask (.send r) (received k)))

open Classical in
noncomputable def debt (job : Job) : Nat := if m.Owes job then 1 else 0

/-- As many requests have been sent for tokens of the copy, and as many more are about to be, as
refreshes of the copy were started; and while one of them is under way, its token has lapsed. -/
structure Books (L : Option Token → Prop) (sent due : Nat) (s : Session) : Prop where
  roles : ∀ i p, .resume i p ∈ s.jobs → m.Role p
  others : ∀ t ∈ s.threads, ∀ k, t.waiting.Elsewhere copy k
  requests : m.sent s = sent
  balance : sent + due + s.total m.debt = (s.held? copy).cache.refreshes.length
  prompt : (s.held? copy).cache.Prompt
  lapsed : (s.held? copy).cache.slot ≠ none → L (s.held? copy).cache.token

variable {m} {L : Option Token → Prop} {i : Cache.CallerId} {k : Cache.RefreshId} {n due : Nat}
  {s s' t : Session} {job : Job} {p : Procedure Ending} {r : Http.Request}
  {outcome : Result Http.Response}

/-- What comes of a request ends the refresh, perhaps after a look at the clock. -/
theorem received_cases (k : Cache.RefreshId) (outcome : Result Http.Response) :
    (∃ result, received k outcome = .done (.ok (.operation copy k result))) ∨
      ∃ result : Double → Result Token, received k outcome = .ask .now fun now =>
        .done (.ok (.operation copy k (result now))) := by
  rw [received, Procedure.map_attempt]
  cases outcome with
  | error e => exact .inl ⟨.error e, rfl⟩
  | ok response =>
    show (∃ result, Procedure.andThen _ (Procedure.bind
      (.done (response.expectObject _ _)) _) = _) ∨ ∃ result : Double → Result Token,
        Procedure.andThen _ (Procedure.bind (.done (response.expectObject _ _)) _) = _
    cases response.expectObject ServiceAccount.wording.refused
      ServiceAccount.wording.unreadable with
    | error e => exact .inl ⟨.error e, rfl⟩
    | ok data =>
      exact .inr ⟨fun now => Http.tokenOf data now ServiceAccount.wording.unreadable, rfl⟩

theorem not_elsewhere_received (k : Cache.RefreshId) (outcome : Result Http.Response) :
    ¬ Elsewhere copy k (received k outcome) := by
  rcases received_cases k outcome with ⟨result, heq⟩ | ⟨result, heq⟩
  · rw [heq]
    exact fun h => h result rfl
  · rw [heq]
    exact fun h => h 0 (result 0) rfl

theorem not_elsewhere_send : ¬ Elsewhere copy k (.ask (.send r) (received k)) :=
  fun h => not_elsewhere_received k (.error .undefined) (h (.error .undefined))

theorem debt_other (h : ∀ k, Elsewhere copy k p) : m.debt (.resume i p) = 0 := by
  refine if_neg fun howes => ?_
  cases howes with
  | send _ hr k => exact not_elsewhere_send (h k)

theorem debt_received : m.debt (.resume i (received k outcome)) = 0 := by
  refine if_neg fun howes => ?_
  generalize hp : received k outcome = p at howes
  cases howes with
  | send =>
    rcases received_cases k outcome with ⟨result, heq⟩ | ⟨result, heq⟩
    · rw [heq] at hp
      cases hp
    · rw [heq] at hp
      cases hp

theorem debt_effect (b : CredentialId) (executor : Executor) (effect : Cache.Effect) :
    m.debt (.effect b executor effect) =
      if b = copy ∧ effect.run?.isSome = true then 1 else 0 := by
  have howes : m.Owes (.effect b executor effect) ↔ b = copy ∧ effect.run?.isSome = true := by
    constructor
    · rintro ⟨⟩
      exact ⟨rfl, rfl⟩
    · rintro ⟨rfl, hrun⟩
      cases effect with
      | run k => exact .run executor k
      | _ => cases hrun
  simp only [debt, howes]

namespace Books

/-- Nothing has happened to the cache of the copy, and nothing was sent. -/
theorem change {due' : Nat} (h : m.Books L n due s)
    (hcache : (s'.held? copy).cache = (s.held? copy).cache) (hrequests : s'.requests = s.requests)
    (hthreads : ∀ t ∈ s'.threads, t ∈ s.threads ∨ ∀ k, t.waiting.Elsewhere copy k)
    (hjobs : ∀ i p, .resume i p ∈ s'.jobs → .resume i p ∈ s.jobs ∨ m.Role p)
    (htotal : due' + s'.total m.debt = due + s.total m.debt) : m.Books L n due' s' where
  roles i p hjob := (hjobs i p hjob).elim (h.roles i p) id
  others t ht := (hthreads t ht).elim (h.others t) id
  requests := by rw [sent, hrequests]; exact h.requests
  balance := by
    rw [hcache, ← h.balance, Nat.add_assoc, htotal, Nat.add_assoc]
  prompt := hcache ▸ h.prompt
  lapsed := hcache ▸ h.lapsed

/-- Nobody has got anything to do, or has done anything. -/
theorem same (h : m.Books L n due s) (hcache : (s'.held? copy).cache = (s.held? copy).cache)
    (hrequests : s'.requests = s.requests) (hthreads : s'.threads = s.threads)
    (hjobs : s'.jobs = s.jobs) : m.Books L n due s' :=
  h.change hcache hrequests (fun _ ht => .inl (hthreads ▸ ht)) (fun _ _ hmem => .inl (hjobs ▸ hmem))
    (by rw [total, total, hjobs])

theorem reading (h : m.Books L n due s) (offsets : List Double) :
    m.Books L n due { s with offsets } := h.same rfl rfl rfl rfl

theorem birth (h : m.Books L n due s) : m.Books L n due { s with born := s.born + 1 } :=
  h.same rfl rfl rfl rfl

theorem put {due' : Nat} (h : m.Books L n due s) (hput : s.Puts job s')
    (hjob : ∀ i p, job = .resume i p → m.Role p) (hdue : m.debt job + due' = due) :
    m.Books L n due' s' := by
  have hthreads : s'.threads = s.threads := by cases hput <;> rfl
  have htrace : s'.trace = s.trace := by cases hput <;> rfl
  refine h.change (by rw [held?, held?, hput.held])
    (by rw [Session.requests, Session.requests, htrace])
    (fun t ht => .inl (hthreads ▸ ht)) (fun i p hmem => ?_) ?_
  · rcases hput.mem_jobs hmem with heq | hmem
    · exact .inr (hjob i p heq.symm)
    · exact .inl hmem
  · rw [total_put hput]
    omega

theorem take (h : m.Books L n 0 s) (htake : s.takeJob? = some (job, t)) :
    m.Books L n (m.debt job) t := by
  have htakes := takes_of_takeJob htake
  have hthreads : t.threads = s.threads := by cases htakes <;> rfl
  have htrace : t.trace = s.trace := by cases htakes <;> rfl
  refine h.change (by rw [takeJob?_held? htake])
    (by rw [Session.requests, Session.requests, htrace])
    (fun t ht => .inl (hthreads ▸ ht)) (fun i p hmem => .inl (htakes.mem_jobs hmem)) ?_
  rw [← total_take htake]
  omega

theorem block (h : m.Books L n due s) {w : Waiting} (hw : ∀ k, w.Elsewhere copy k) :
    m.Books L n due (s.block i w) := by
  refine h.change rfl rfl (fun t ht => ?_) (fun i p hmem => .inl hmem) rfl
  rcases List.mem_append.mp ht with ht | ht
  · exact .inl ht
  · obtain rfl := List.mem_singleton.mp ht
    exact .inr hw

theorem total_debt (b : CredentialId) (executor : Executor) (e : Cache.Event) :
    (s.stepCache b executor e).total m.debt = s.total m.debt +
      if b = copy ∧ ((s.held? b).cache.sets? e).isSome = true then 1 else 0 :=
  total_stepCache b executor e (fun run => if b = copy ∧ run.isSome = true then 1 else 0)
    (if_neg fun hand => nomatch hand.2) (debt_effect b executor)

/-- What a cache wants done is no program. -/
theorem resume_mem_stepCache {b : CredentialId} {executor : Executor} {e : Cache.Event}
    (h : .resume i p ∈ (s.stepCache b executor e).jobs) : .resume i p ∈ s.jobs := by
  rw [stepCache_jobs, List.mem_append, List.mem_map] at h
  rcases h with ⟨effect, -, heq⟩ | h
  · cases heq
  · exact h

/-- The cache of the copy goes on. A refresh that is started because of a reading of the clock
finds a token that has lapsed. -/
theorem stepCache_copy (h : m.Books L n due s) (executor : Executor) {e : Cache.Event}
    (hplain : e.Plain) (hlt : copy < s.held.length)
    (hlapsed : ∀ caller first second aborted,
      e = .fetch caller .now first second aborted → (s.held? copy).cache.freshness first ≠ .fresh ∨
        (s.held? copy).cache.freshness second ≠ .fresh → L (s.held? copy).cache.token) :
    m.Books L n due (s.stepCache copy executor e) := by
  have hcache : ((s.stepCache copy executor e).held? copy).cache =
      (Cache.step ⟨(s.held? copy).credential.logging⟩ e (s.held? copy).cache).1 := by
    rw [held?_stepCache, if_pos ⟨rfl, hlt⟩]
  refine ⟨fun i p hmem => h.roles i p (resume_mem_stepCache hmem), h.others, h.requests,
    ?_, ?_, ?_⟩
  · have hbalance := h.balance
    rw [hcache, h.prompt.runs hplain, Cache.State.runs_step, total_debt]
    cases (s.held? copy).cache.sets? e with
    | none =>
      rw [if_neg fun hand => nomatch hand.2]
      exact hbalance
    | some k =>
      rw [if_pos ⟨rfl, rfl⟩]
      exact congrArg (· + 1) hbalance
  · rw [hcache]
    exact h.prompt.step hplain
  · rw [hcache]
    intro hslot
    obtain ⟨htoken, hwhy⟩ := h.prompt.lapses hplain hslot
    rw [htoken]
    rcases hwhy with hbefore | ⟨caller, first, second, aborted, rfl, hreading⟩
    · exact h.lapsed hbefore
    · exact hlapsed caller first second aborted rfl hreading

/-- A cache goes on. If it is that of the copy, nobody forces a refresh of it, and one that is
started because of a reading of the clock finds a token that has lapsed. -/
theorem stepCache (h : m.Books L n due s) (b : CredentialId) (executor : Executor)
    {e : Cache.Event} (he : b = copy → e.Plain) (hb : b < s.held.length ∨ e.caller? = none)
    (hlapsed : b = copy → ∀ caller first second aborted,
      e = .fetch caller .now first second aborted → (s.held? copy).cache.freshness first ≠ .fresh ∨
        (s.held? copy).cache.freshness second ≠ .fresh → L (s.held? copy).cache.token) :
    m.Books L n due (s.stepCache b executor e) := by
  by_cases hown : copy = b ∧ copy < s.held.length
  · obtain ⟨rfl, hlt⟩ := hown
    exact h.stepCache_copy executor (he rfl) hlt (hlapsed rfl)
  · have hcache : ((s.stepCache b executor e).held? copy).cache = (s.held? copy).cache := by
      rw [held?_stepCache, if_neg hown]
    have hquiet : ¬ (b = copy ∧ ((s.held? b).cache.sets? e).isSome = true) := by
      rintro ⟨rfl, hsome⟩
      have hnone : ¬ copy < s.held.length := fun hlt => hown ⟨rfl, hlt⟩
      rw [held?_eq_default hnone, Cache.State.sets?_default (hb.resolve_left hnone)] at hsome
      cases hsome
    exact h.change hcache rfl (fun t ht => .inl ht)
      (fun i p hmem => .inl (resume_mem_stepCache hmem))
      (by rw [total_debt, if_neg hquiet, Nat.add_zero])

/-- A cache does something that nobody has called for. -/
theorem stepCache_uncalled (h : m.Books L n due s) (b : CredentialId) (executor : Executor)
    {e : Cache.Event} (he : e.Plain) (hcall : e.caller? = none) :
    m.Books L n due (s.stepCache b executor e) := by
  refine h.stepCache b executor (fun _ => he) (.inr hcall) ?_
  rintro - caller first second aborted rfl
  cases hcall

theorem read (h : m.Books L n due s) : m.Books L n due s.read.2 := by
  unfold Session.read
  split
  · exact h
  · exact h.reading _

theorem stride {replies : List Session.Reply} (h : m.Books L n due s)
    (hstride : Stride m.discipline replies s t) : m.Books L n due t := by
  cases hstride with
  | reading => exact h.reading _
  | note => exact h.same rfl rfl rfl rfl
  | create credential htoken =>
    refine h.same ?_ rfl rfl rfl
    rw [held?_create]
    split
    · next hcopy =>
      rw [held?_eq_default (Nat.not_lt.mpr (Nat.le_of_eq hcopy.symm)), htoken]
      rfl
    · rfl
  | redirect c source =>
    refine h.same ?_ rfl rfl rfl
    rw [held?_modifyHeld]
    split <;> rfl
  | warn c failure =>
    exact h.stepCache_uncalled c .direct (e := .callbackFailed failure) trivial rfl

theorem strides {replies : List Session.Reply} (h : m.Books L n due s)
    (hstrides : Strides m.discipline replies s t) : m.Books L n due t := by
  induction hstrides with
  | refl => exact h
  | tail _ hstride ih => exact ih.stride hstride

section Programs
variable {replies : List Session.Reply} {start v : View}

/-- A request leaves with what comes of it settled. -/
theorem arrive (h : m.Books L n due s) (hp : m.Role p) (hdue : m.debt (.resume i p) = due)
    (reply : Session.Reply) (hlost : reply.lost = true → due = 0) :
    m.Books L n 0 (s.arrive reply (.resume i p)) := by
  rcases arrive_cases s reply (.resume i p) with ⟨hnever, hsame⟩ | hput
  · rw [hsame]
    exact hlost hnever ▸ h
  · exact h.put hput (fun _ _ heq => by cases heq; exact hp) hdue

/-- The copy sends its request. -/
theorem sends_token (h : m.Books L n 1 s) (hs : Tidy m.discipline replies v s)
    (hr : m.widened.Requests r) :
    m.Books L (n + 1) 0 (advance i (.ask (.send r) (received k)) s) := by
  obtain ⟨reply, hadvance⟩ := advance_send hs.plain hs.upcoming i r (received k)
  have hsent : m.Books L (n + 1) 0
      { s.observe (.sent r) with replies := replies.drop (s.requests.length + 1) } := by
    refine ⟨h.roles, h.others, ?_, ?_, h.prompt, h.lapsed⟩
    · rw [← h.requests]
      exact List.countP_cons_of_pos (by simpa using hr)
    · exact h.balance
  rw [hadvance]
  exact hsent.arrive (.receive k _) debt_received reply fun _ => rfl

/-- A refresh of the copy that is at work sends its request, and is still under way then. -/
theorem sends_working (h : m.Books L n 1 s) (hs : Tidy m.discipline replies v s)
    (hr : m.widened.Requests r) (hworking : (s.held? copy).cache.stage? k = some .working) :
    m.Books L (n + 1) 0 (advance i (.ask (.send r) (received k)) s) ∧
      ((advance i (.ask (.send r) (received k)) s).held? copy).cache.slot ≠ none := by
  refine ⟨h.sends_token hs hr, ?_⟩
  have hopen : (s.held? copy).cache.isOpen k = true := by
    rw [Cache.State.isOpen, hworking]
    rfl
  rw [held?, held_send hs.plain hs.upcoming, ← held?, h.prompt.openInSlot k hopen]
  exact Option.some_ne_none k

/-- Something else is sent. -/
theorem sends_other (h : m.Books L n 0 s) (hs : Tidy m.discipline replies v s)
    (hr : ¬ m.widened.Requests r) {next : Result Http.Response → Procedure Ending}
    (hnext : ∀ outcome k, Elsewhere copy k (next outcome)) :
    m.Books L n 0 (advance i (.ask (.send r) next) s) := by
  obtain ⟨reply, hadvance⟩ := advance_send hs.plain hs.upcoming i r next
  have hsent : m.Books L n 0
      { s.observe (.sent r) with replies := replies.drop (s.requests.length + 1) } := by
    refine ⟨h.roles, h.others, ?_, h.balance, h.prompt, h.lapsed⟩
    rw [← h.requests]
    exact List.countP_cons_of_neg (by simpa using hr)
  rw [hadvance]
  exact hsent.arrive (.other (hnext _)) (debt_other (hnext _)) reply fun _ => rfl

/-- The copy gets what came of its request. -/
theorem receives (h : m.Books L n 0 s) (k : Cache.RefreshId) (outcome : Result Http.Response) :
    m.Books L n 0 (advance i (received k outcome) s) := by
  rcases received_cases k outcome with ⟨result, heq⟩ | ⟨result, heq⟩
  · rw [heq]
    exact h.stepCache_uncalled copy .direct (e := .settle k result) trivial rfl
  · rw [heq]
    exact h.read.stepCache_uncalled copy .direct (e := .settle k _) trivial rfl

/-- A refresh of the copy begins by having its assertion signed. -/
theorem operates (h : m.Books L n 1 s) (htable : (s.view replies).table = m.shared)
    (hkey : m.widened.key.SignsTokens) (k : Cache.RefreshId) :
    m.Books L n 0
      (advance i (Ending.operation copy k <$> (Credential.requestToken copy).attempt) s) := by
  obtain ⟨next, heq, -, -, haccount, -⟩ := Credential.requestToken_looks copy
  have hkind : (s.held? copy).credential.kind = .serviceAccount m.widened := by
    have hview : (s.view replies).credential copy = (s.held? copy).credential :=
      view_credential copy
    rw [← hview, View.credential, htable]
    rfl
  obtain ⟨assertion, hassertion⟩ := hkey.signedToken m.widened.keyId.filled?
    (m.widened.claims (s.read.1 / Double.ofNat 1000).floor)
  have hassertion' : m.widened.assertionAt s.read.1 = .ok assertion := hassertion
  rw [Procedure.map_attempt, heq]
  show m.Books L n 0 (advance i ((next (s.held? copy).credential).andThen _) s)
  obtain ⟨asserts, hasserts, hsigns⟩ :=
    ServiceAccount.requestToken_signs (a := m.widened) (List.cons_ne_nil _ _)
  rw [haccount _ _ hkind, hasserts]
  show m.Books L n 0 (advance i ((asserts s.read.1).andThen _) s.read.2)
  rw [(hsigns s.read.1).1 assertion hassertion']
  have hrequests : m.widened.Requests (m.widened.tokenRequest assertion) :=
    ⟨s.read.1, assertion, hassertion', rfl⟩
  have hsame : (fun outcome => (Procedure.receiving (tokenIn · ServiceAccount.wording)
      outcome).andThen fun outcome => .done (.ok (Ending.operation copy k outcome))) =
        received k := funext fun outcome => (Procedure.map_attempt _ _).symm
  show m.Books L n 0 (s.read.2.doLater (.resume i (.ask (.send (m.widened.tokenRequest assertion))
    fun outcome => (Procedure.receiving (tokenIn · ServiceAccount.wording) outcome).andThen _)))
  rw [hsame]
  refine h.read.put .later (fun _ _ hjob => ?_) ?_
  · cases hjob
    exact .send hrequests k
  · exact if_pos (Owes.send i hrequests k)

/-- A program ends. -/
theorem ends (h : m.Books L n 0 s) (outcome : Result Ending) :
    m.Books L n 0 (advance i (.done outcome) s) := by
  rcases outcome with failure | e
  · exact h
  · cases e with
    | operation c k result =>
      exact h.stepCache_uncalled c .direct (e := .settle k result) trivial rfl
    | listener c k failure =>
      have hput : s.Puts (.listenerDone c k failure) (s.finish (.listener c k failure)) := .next
      exact h.put hput nofun (if_neg nofun)
    | call name result => exact h.same rfl rfl rfl rfl
    | nothing => exact h

/-- Whatever has no part in the refreshes of the copy goes on. -/
theorem resumes (h : m.Books L n 0 s) (hother : ∀ k, Elsewhere copy k p)
    (hput : s.Puts (.resume i p) s') : m.Books L n 0 s' :=
  h.put hput (fun _ _ heq => by cases heq; exact .other hother) (debt_other hother)

/-- A token is fetched: of the copy, only at once. -/
theorem fetches (h : m.Books L n 0 s) {c : CredentialId} {executor : Executor}
    {signal : Option Signal} {next : Result Token → Procedure Ending} (hc : c < s.held.length)
    (hdirect : c = copy → executor = .direct) (hother : ∀ k r, Elsewhere copy k (next r))
    (hjudges : s.Judges L) :
    m.Books L n 0 (advance i (.ask (.fetch c executor signal) next) s) := by
  obtain ⟨t, offsets, first, second, rfl, -, ⟨hfirst, hsecond⟩, hadvance⟩ :=
    advance_fetch_cases s i c executor signal next
  have hblock := (h.reading offsets).block (i := i)
    (w := .token c signal fun r => next (givenToken r)) fun k r => hother k (givenToken r)
  rw [hadvance]
  refine hblock.stepCache c executor (fun heq => ?_) (.inl hc) fun heq => ?_
  · rw [hdirect heq]
    rfl
  · rintro caller first' second' aborted hevent hlapsed
    obtain ⟨-, -, rfl, rfl, -⟩ := Cache.Event.fetch.inj hevent
    exact hlapsed.elim (hjudges first _ hfirst) (hjudges second _ hsecond)

/-- A credential other than the copy is called for a refresh. -/
theorem refreshes_other (h : m.Books L n 0 s) {c : CredentialId} {signal : Option Signal}
    {next : Result Unit → Procedure Ending} (hc : c < s.held.length) (hfree : c ≠ copy)
    (hother : ∀ k r, Elsewhere copy k (next r)) (e : Cache.Event) :
    m.Books L n 0 ((s.block i (.token c signal fun r => next (r.map fun _ => ()))).stepCache c
      .direct e) := by
  have hblock := h.block (i := i) (w := .token c signal fun r => next (r.map fun _ => ()))
    fun k r => hother k (r.map fun _ => ())
  exact hblock.stepCache c .direct (fun heq => absurd heq hfree) (.inl hc)
    fun heq => absurd heq hfree

/-- What a program does that rests and has no part in the refreshes of the copy. -/
theorem rest (h : m.Books L n 0 s) (hs : Tidy m.discipline replies v s) (hrests : p.Rests)
    (hp : m.discipline.Keeps start (s.view replies) p) (hother : ∀ k, Elsewhere copy k p)
    (hjudges : s.Judges L) : m.Books L n 0 (advance i p s) := by
  cases p with
  | done outcome => exact h.ends outcome
  | ask q next =>
    cases q with
    | send r =>
      obtain ⟨-, ⟨-, -, hcopy⟩, -⟩ := hp
      refine h.sends_other hs (fun hr => ?_) fun outcome k => hother k outcome
      obtain ⟨k, rfl⟩ := hcopy hr
      exact not_elsewhere_send (hother k)
    | read path => exact h.resumes (fun k => hother k (s.folder.read? path)) .later
    | rest => exact h.resumes (fun k => hother k ()) .later
    | fetch c executor signal =>
      obtain ⟨-, ⟨-, hc, hdirect⟩, -⟩ := hp
      exact h.fetches (view_length ▸ hc) hdirect hother hjudges
    | refresh c signal =>
      obtain ⟨-, ⟨-, hc, hfree⟩, -⟩ := hp
      exact h.refreshes_other (view_length ▸ hc) hfree hother _
    | refreshIfExpired c signal =>
      obtain ⟨-, ⟨-, hc, hfree⟩, -⟩ := hp
      obtain ⟨t, offsets, reading, rfl, -, hadvance⟩ :=
        advance_refreshIfExpired_cases s i c signal next
      have hlength : c < s.held.length := view_length ▸ hc
      rw [hadvance]
      exact (h.reading offsets).refreshes_other hlength hfree hother _
    | _ => exact hrests.elim

theorem advance (h : m.Books L n 0 s) (hs : Tidy m.discipline replies v s)
    (hp : m.discipline.Keeps start (s.view replies) p) (hother : ∀ k, Elsewhere copy k p)
    (hjudges : s.Judges L) : m.Books L n 0 (Session.advance i p s) := by
  obtain ⟨t, p', hstrides, hleads, hrests, hkeeps, hadvance⟩ := advance_course i hp
  obtain ⟨hnow, hoffsets⟩ := hstrides.clock
  rw [hadvance]
  exact (h.strides hstrides).rest (hs.strides hstrides) hrests hkeeps
    (fun k => hleads.ends (hother k)) (hjudges.later hnow hoffsets)

end Programs

section Work
variable {replies : List Session.Reply}

theorem answer (h : m.Books L n 0 s) (i : Cache.CallerId) (r : Result (Option Token)) :
    m.Books L n 0 (s.answer i r) := by
  unfold Session.answer
  split
  · next id b signal next hfound =>
    have hother : ∀ k, Elsewhere copy k (next r) := fun k =>
      h.others _ (List.mem_of_find?_eq_some hfound) k r
    have hforget : m.Books L n 0 (s.forget i) :=
      h.change rfl rfl (fun t ht => .inl (List.mem_of_mem_filter ht))
        (fun i p hmem => .inl hmem) rfl
    exact hforget.put .next (fun _ _ heq => by cases heq; exact .other hother) (debt_other hother)
  · exact h

/-- A refresh of the copy is only started once there is a copy. -/
theorem shared (hs : Tidy m.discipline replies (s.view replies) s) (h : m.Books L n 1 s) :
    (s.view replies).table = m.shared := by
  rcases hs.good.table with ⟨hunshared, -⟩ | hshared
  · exfalso
    have hmissing : ¬ copy < s.held.length := by
      have hlength : (s.view replies).table.length = s.held.length := view_length
      rw [← hlength, hunshared]
      exact Nat.lt_irrefl 2
    have hbalance := h.balance
    rw [held?_eq_default hmissing] at hbalance
    have hnone : (default : Held).cache.refreshes.length = 0 := rfl
    omega
  · exact hshared

/-- An operation starts for a refresh that was set going. -/
theorem runs (hkey : m.widened.key.SignsTokens)
    (hs : Tidy m.discipline replies (s.view replies) s) {c : CredentialId}
    (hpart : m.discipline.takesPart c) {executor : Executor}
    (h : m.Books L n (m.debt (.effect c executor (.run k))) s) (hjudges : s.Judges L) :
    m.Books L n 0 (s.perform (.effect c executor (.run k))) := by
  rw [debt_effect] at h
  rcases hpart with rfl | rfl
  · have hbirth : Tidy m.discipline replies (s.view replies) { s with born := s.born + 1 } :=
      hs.change rfl rfl rfl rfl fun _ hjob => .inl hjob
    have hkeeps := Impersonation.operates (m := m) (s.view replies) wrapper k hs.good (.inl rfl)
    have hother (j : Cache.RefreshId) : Elsewhere copy j
        (Ending.operation wrapper k <$> (Credential.requestToken wrapper).attempt) :=
      elsewhere_attempt _ fun outcome r heq => by cases heq
    rw [if_neg fun hand => absurd hand.1 (by decide)] at h
    exact h.birth.advance hbirth hkeeps hother hjudges
  · rw [if_pos ⟨rfl, rfl⟩] at h
    have htable := shared hs h
    exact h.birth.operates htable hkey k

/-- What a cache wants done is done. -/
theorem effect (hkey : m.widened.key.SignsTokens)
    (hs : Tidy m.discipline replies (s.view replies) s) {c : CredentialId}
    (hpart : m.discipline.takesPart c) {executor : Executor} {effect : Cache.Effect}
    (h : m.Books L n (m.debt (.effect c executor effect)) s) (hjudges : s.Judges L) :
    m.Books L n 0 (s.perform (.effect c executor effect)) := by
  have hquiet (hrun : effect.run? = none) : m.Books L n 0 s := by
    rwa [debt_effect, hrun, if_neg fun hand => Bool.false_ne_true hand.2] at h
  have hput {job' : Job} {s' : Session} (hrun : effect.run? = none) (hput : s.Puts job' s')
      (hjob' : ∀ i p, job' ≠ .resume i p) (howes : ¬ m.Owes job') : m.Books L n 0 s' :=
    (hquiet hrun).put hput (fun i p heq => absurd heq (hjob' i p)) (if_neg howes)
  cases effect with
  | answer i r => exact (hquiet rfl).answer i r
  | log entry => exact (hquiet rfl).same rfl rfl rfl rfl
  | run k => exact runs hkey hs hpart h hjudges
  | hold k =>
    cases executor with
    | manual => exact hput rfl (.kept ⟨c, k, rfl⟩) (by rintro i p ⟨⟩) (by rintro ⟨⟩)
    | _ => exact hput rfl .later (by rintro i p ⟨⟩) (by rintro ⟨⟩)
  | due k => exact hput rfl .next (by rintro i p ⟨⟩) (by rintro ⟨⟩)
  | notify k l =>
    show m.Books L n 0 (s.callListener c k l)
    rw [hs.callListener_eq]
    exact hput rfl .next (by rintro i p ⟨⟩) (by rintro ⟨⟩)

/-- The books are kept in all work; and when a request is sent for a token of the copy, one of
its refreshes is under way. -/
theorem work (hkey : m.widened.key.SignsTokens)
    (hs : Orderly m.discipline replies (s.view replies) s) (hstaffed : s.Staffed)
    (h : m.Books L n 0 s) (htake : s.takeJob? = some (job, t)) (hjudges : t.Judges L) :
    m.Books L n 0 (t.perform job) ∨
      m.Books L (n + 1) 0 (t.perform job) ∧ ((t.perform job).held? copy).cache.slot ≠ none := by
  have hview : t.view replies = s.view replies := view_take htake
  have htidy : Tidy m.discipline replies (t.view replies) t := hview.symm ▸ hs.toTidy.take htake
  have ht := h.take htake
  have hmem := (takes_of_takeJob htake).mem
  cases job with
  | resume i p =>
    have hkeeps := (idle_of_resume (hs.everyone.position i) htake).2 _ (.refl hs.good)
    cases h.roles i p hmem with
    | other hother =>
      rw [debt_other hother] at ht
      exact .inl (ht.advance htidy (hview.symm ▸ hkeeps) hother hjudges)
    | receive k outcome =>
      rw [debt_received] at ht
      exact .inl (ht.receives k outcome)
    | @send r hr k =>
      have hone : m.debt (.resume i (.ask (.send r) (received k))) = 1 :=
        if_pos (Owes.send i hr k)
      have hworking := hstaffed.at_work (c := copy) (k := k) hmem (if_neg not_elsewhere_send)
      rw [← takeJob?_held? htake] at hworking
      exact .inr ((hone ▸ ht).sends_working htidy hr hworking)
  | launch c k =>
    have hzero : m.debt (.launch c k) = 0 := if_neg (by rintro ⟨⟩)
    exact .inl ((hzero ▸ ht).stepCache_uncalled c .direct (e := .launch k) trivial rfl)
  | process c k =>
    have hzero : m.debt (.process c k) = 0 := if_neg (by rintro ⟨⟩)
    exact .inl ((hzero ▸ ht).stepCache_uncalled c .direct (e := .process k) trivial rfl)
  | listenerDone c k failure =>
    have hzero : m.debt (.listenerDone c k failure) = 0 := if_neg (by rintro ⟨⟩)
    exact .inl ((hzero ▸ ht).stepCache_uncalled c .direct (e := .listenerDone k failure)
      trivial rfl)
  | effect c executor effect =>
    exact .inl (ht.effect hkey htidy (hs.jobs _ hmem c rfl) hjudges)

/-- The books are kept in whatever is done with the credentials. -/
theorem use (hkey : m.widened.key.SignsTokens)
    (hs : Orderly m.discipline replies (s.view replies) s) (hstaffed : s.Staffed)
    (h : m.Books L n 0 s) (huse : Use Calls s s')
    (hlapsed : ∀ reading (cache : Cache.State), s.Reads s' reading →
      cache.freshness reading ≠ .fresh → L cache.token) :
    m.Books L n 0 s' ∨ m.Books L (n + 1) 0 s' ∧ (s'.held? copy).cache.slot ≠ none := by
  cases huse with
  | work htake =>
    exact h.work hkey hs hstaffed htake fun reading cache hshows =>
      hlapsed reading cache (reads_work htake hshows)
  | @start p hp =>
    have hbirth : Tidy m.discipline replies (s.view replies) { s with born := s.born + 1 } :=
      hs.change rfl rfl rfl rfl fun _ hjob => .inl hjob
    have hnow : (s.spawn p).now = s.now := now_advance _ _ _
    refine .inl (h.birth.advance hbirth (keeps_calls hp hs.good) (fun k => hp.elsewhere copy k)
      fun reading cache hshows => hlapsed reading cache (hshows.before hnow.symm List.suffix_rfl))
  | signal aborted => exact .inl (h.same rfl rfl rfl rfl)
  | @giveUp i c name next ht reason =>
    exact .inl (h.stepCache_uncalled c .direct (e := .abort i reason) trivial rfl)
  | reclaim =>
    refine .inl (h.change rfl rfl (fun t ht => .inl ht) (fun i p hmem => .inl ?_)
      (congrArg (0 + ·) total_reclaim))
    rw [mem_jobs] at hmem ⊢
    simp only [doFirst, List.mem_append] at hmem
    grind
  | world w hw => exact .inl (h.same rfl rfl rfl rfl)

end Work

/-- Whoever is to send a request works for a refresh of the copy. -/
theorem duty_of_owes (h : m.Owes job) : ∃ k, job.duty copy k = 1 := by
  cases h with
  | run executor k => exact ⟨k, if_pos ⟨rfl, rfl⟩⟩
  | send i hr k => exact ⟨k, if_neg not_elsewhere_send⟩

/-- One request at most is out whose refresh has not settled. -/
theorem outstanding (h : m.Books L n 0 s) (hlatest : (s.held? copy).cache.SlotLatest)
    (hstaffed : s.Staffed) : settled s ≤ n ∧ n ≤ settled s + 1 := by
  have hbalance := h.balance
  have hsettled : (s.held? copy).cache.refreshes.length ≤ settled s + 1 :=
    h.prompt.settled hlatest
  refine ⟨?_, by omega⟩
  by_cases hdue : ∃ job ∈ s.jobs, m.Owes job
  · obtain ⟨job, hjob, howes⟩ := hdue
    obtain ⟨k, hduty⟩ := duty_of_owes howes
    have hslot {j : Cache.RefreshId} (hj : (s.held? copy).cache.stage? j = some .working) :
        (s.held? copy).cache.slot = some j := by
      refine h.prompt.openInSlot j ?_
      rw [Cache.State.isOpen, hj]
      rfl
    have hworking := hstaffed.at_work hjob hduty
    -- Everyone who is to send a request works for this refresh, so there is nobody else.
    have hone : s.total m.debt ≤ s.workers copy k := by
      refine Nat.le_trans ?_ (Nat.le_add_right _ _)
      refine List.sum_le_sum fun job' hjob' => ?_
      by_cases howes' : m.Owes job'
      · obtain ⟨j, hduty'⟩ := duty_of_owes howes'
        obtain rfl : j = k :=
          Option.some.inj ((hslot (hstaffed.at_work hjob' hduty')).symm.trans (hslot hworking))
        rw [hduty']
        exact Nat.le_of_eq (if_pos howes')
      · rw [debt, if_neg howes']
        exact Nat.zero_le _
    have hposts := hstaffed copy k
    rw [posts, if_pos hworking] at hposts
    have hless : settled s < (s.held? copy).cache.refreshes.length := by
      obtain ⟨refresh, hrefresh, hstage⟩ := Option.map_eq_some_iff.mp hworking
      refine List.countP_lt_length_iff.mpr ⟨refresh, List.mem_of_getElem? hrefresh, ?_⟩
      rw [hstage]
      rfl
    omega
  · have hzero : s.total m.debt = 0 := by
      refine List.sum_eq_zero fun worth hworth => ?_
      obtain ⟨job, hjob, rfl⟩ := List.mem_map.mp hworth
      exact if_neg fun howes => hdue ⟨job, hjob, howes⟩
    have hle : settled s ≤ (s.held? copy).cache.refreshes.length := List.countP_le_length
    omega

end Books
end Impersonation
end Bearer
