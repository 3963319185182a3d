import Bearer.Proofs.Credential.SourceFlight

namespace Bearer.Impersonation

open Session
open Relation (ReflTransGen)

variable {m : Impersonation} {w : World} {s s' : Session} {R : Session → Session → Prop}

/-- In some step before, a reading of the clock has shown that the token was not fresh that is
in the cache of the copy. -/
def Lapsed (R : Session → Session → Prop) (start s : Session) (token : Option Token) : Prop :=
  ∃ before after reading, ReflTransGen R start before ∧ R before after ∧ ReflTransGen R after s ∧
    before.Reads after reading ∧ (after.held? copy).cache.token = token ∧
    (after.held? copy).cache.freshness reading ≠ .fresh

/-- A thread that waits for a refresh of the copy ends with an error that its failure has caused,
as the operation of a refresh or as a call, and sends nothing more. -/
inductive FailsWith (i : Cache.CallerId) (j : Cache.RefreshId) (s : Session) : Prop
  | refresh (k : Cache.RefreshId) (working : (s.held? wrapper).cache.stage? k = some .working)
      (h : ∀ s' e, Uses Calls s s' →
        (s'.held? copy).cache.stage? j = some (.finished (.error e)) →
        Concludes i (.done (.ok (.operation wrapper k
            (.error (Fault.sourceNotRefreshed e).thrown))))
          (FailedWith wrapper k (Fault.sourceNotRefreshed e).thrown) s')
  | call (name : String) (h : ∀ s' e, Uses Calls s s' →
      (s'.held? copy).cache.stage? j = some (.finished (.error e)) →
      Concludes i (.done (.ok (.call name (.error (Fault.sourceNotRefreshed e).thrown))))
        (Told name (Fault.sourceNotRefreshed e).thrown) s')

/-- The two credentials have been made, and nothing else has happened. -/
theorem opened_eq : m.opened w = { w.session with
    born := 1
    held := m.unshared.map fun credential =>
      { credential, cache := .initial credential.token } } := rfl

theorem pristine_opened : (m.opened w).Pristine := by
  rw [opened_eq]
  exact pristine_session w _ 1

theorem orderly_opened : Orderly m.discipline w.replies ((m.opened w).view w.replies)
    (m.opened w) := by
  have hpristine : (m.opened w).Pristine := pristine_opened
  rw [opened_eq] at hpristine ⊢
  refine hpristine.orderly ⟨.inl ⟨rfl, rfl⟩, fun r outcome earlier h => ?_⟩ fun c t ht => ?_
  · cases List.suffix_nil.mp h
  · rintro rfl
    cases ht

theorem books_opened (L : Option Token → Prop) : m.Books L 0 0 (m.opened w) where
  roles i p hmem := by
    rw [pristine_opened.jobs] at hmem
    cases hmem
  others t ht := by
    rw [pristine_opened.threads] at ht
    cases ht
  requests := by
    rw [sent, requests, pristine_opened.trace]
    rfl
  balance := by
    rw [total, pristine_opened.jobs]
    rfl
  prompt := Cache.State.prompt_initial none
  lapsed h := absurd rfl h

theorem orderly_run (hrun : Uses Calls (m.opened w) s) :
    Orderly m.discipline w.replies (s.view w.replies) s :=
  (lands_uses operates (fun _ hp _ hgood => keeps_calls hp hgood) orderly_opened hrun).orderly

theorem staffed_run (hrun : Uses Calls (m.opened w) s) : s.Staffed :=
  staffed_uses operates (fun _ hp _ hgood => keeps_calls hp hgood) (fun _ hp => hp.elsewhere)
    orderly_opened pristine_opened.staffed hrun

theorem sound_run (hrun : Uses Calls (m.opened w) s) : s.Sound (fun _ => True) none :=
  sound_uses ((sound_session w false).acts (spawn_acts (by simp) (Procedure.Asks.anything _))) hrun

/-- The books are kept in a step of a run; and if a request for a token of the copy is sent in
it, one of its refreshes is under way. -/
theorem books_step (hkey : m.widened.key.SignsTokens) (hR : ∀ s s', R s s' → Use Calls s s')
    (hrun : ReflTransGen R (m.opened w) s) (hstep : R s s')
    (h : m.Books (Lapsed R (m.opened w) s) (m.sent s) 0 s) :
    m.Books (Lapsed R (m.opened w) s') (m.sent s') 0 s' ∧
      (m.sent s < m.sent s' → (s'.held? copy).cache.slot ≠ none) := by
  have huses : Uses Calls (m.opened w) s := ReflTransGen.mono hR _ _ hrun
  -- What the step itself shows is only told apart once the step is over.
  have hknown : m.Books (fun token => Lapsed R (m.opened w) s token ∨
      ∃ reading, s.Reads s' reading ∧ ∀ cache : Cache.State, cache.token = token →
        cache.freshness reading ≠ .fresh) (m.sent s) 0 s :=
    { h with lapsed := fun hslot => .inl (h.lapsed hslot) }
  have hafter {n : Nat} (h' : m.Books (fun token => Lapsed R (m.opened w) s token ∨
      ∃ reading, s.Reads s' reading ∧ ∀ cache : Cache.State, cache.token = token →
        cache.freshness reading ≠ .fresh) n 0 s') :
      m.Books (Lapsed R (m.opened w) s') (m.sent s') 0 s' := by
    obtain rfl := h'.requests
    refine { h' with lapsed := fun hslot => ?_ }
    rcases h'.lapsed hslot with hbefore | ⟨reading, hreads, hfresh⟩
    · obtain ⟨before, after, reading, hstart, hthen, hsince, hrest⟩ := hbefore
      exact ⟨before, after, reading, hstart, hthen, hsince.tail hstep, hrest⟩
    · exact ⟨s, s', reading, hrun, hstep, .refl, hreads, rfl, hfresh _ rfl⟩
  rcases hknown.use hkey (orderly_run huses) (staffed_run huses) (hR s s' hstep)
    (fun reading cache hreads hfresh => .inr ⟨reading, hreads, fun cache' heq => by
      rwa [Cache.State.freshness, heq]⟩) with hsame | ⟨hmore, hslot⟩
  · refine ⟨hafter hsame, fun hless => ?_⟩
    rw [hsame.requests] at hless
    exact absurd hless (Nat.lt_irrefl _)
  · exact ⟨hafter hmore, fun _ => hslot⟩

theorem books_run (hkey : m.widened.key.SignsTokens) (hR : ∀ s s', R s s' → Use Calls s s')
    (hrun : ReflTransGen R (m.opened w) s) :
    m.Books (Lapsed R (m.opened w) s) (m.sent s) 0 s := by
  induction hrun with
  | refl =>
    have hopened := books_opened (m := m) (w := w) (Lapsed R (m.opened w) (m.opened w))
    exact hopened.requests.symm ▸ hopened
  | tail hrun hstep ih => exact (books_step hkey hR hrun hstep ih).1

theorem requests_of_contacts {replies : List Session.Reply} (h : s.contacts replies = []) :
    s.requests = [] := by
  rw [contacts] at h
  cases hrequests : s.requests with
  | nil => rfl
  | cons r earlier =>
    rw [hrequests] at h
    cases h

/-- Only a key that can sign tokens has any requested. -/
theorem signs_of_sent (h : 0 < m.sent s) : m.widened.key.SignsTokens := by
  obtain ⟨r, -, hr⟩ := List.countP_pos_iff.mp h
  have hrequests : m.widened.Requests r := by simpa using hr
  exact hrequests.signs

/-- A request for a token of the copy is only sent if the cached token has lapsed. -/
theorem lapsed_of_sending (hR : ∀ s s', R s s' → Use Calls s s')
    (hrun : ReflTransGen R (m.opened w) s) (hstep : R s s') (hsent : m.sent s < m.sent s') :
    Lapsed R (m.opened w) s' (s'.held? copy).cache.token := by
  have hkey : m.widened.key.SignsTokens := signs_of_sent (Nat.zero_lt_of_lt hsent)
  obtain ⟨hbooks, hslot⟩ := books_step hkey hR hrun hstep (books_run hkey hR hrun)
  exact hbooks.lapsed (hslot hsent)

theorem Obtained.valid {contacts : List Contact} {t : Token} (h : m.Obtained contacts t) {ms : Int}
    (hends : t.expiry = .at ms) : Time.isValid ms = true := by
  obtain ⟨-, -, -, -, -, data, now, -, value, -, n, -, -, -, rfl⟩ := h
  exact Token.lasting_valid hends

/-- While the clock goes on, a token that has lapsed is not fresh again. -/
theorem not_fresh_of_lapsed (hrun : Uses Calls (m.opened w) s)
    (h : Lapsed (Steady Calls) (m.opened w) s (s.held? copy).cache.token) :
    (s.held? copy).cache.freshness s.now ≠ .fresh := by
  obtain ⟨before, after, reading, -, hstep, hsince, hreads, htoken, hfresh⟩ := h
  obtain rfl := hstep.2.reads hreads
  obtain ⟨-, -, a, b, ⟨-, hb⟩, -, -, hafter⟩ := hstep
  obtain ⟨c, hc, hbc, hnow⟩ := clock_of_steady hb hafter hsince
  rw [Cache.State.freshness_ne_fresh] at hfresh ⊢
  intro t ht
  have hobtained : m.Obtained (s.view w.replies).contacts t :=
    ((orderly_run hrun).caches copy).cached t ht rfl
  have hends := hfresh t (htoken.trans ht)
  rw [hafter] at hends
  rw [hnow]
  exact hends.later (fun ms hms => hobtained.valid hms) (by decide) hb hc hbc

/-- Whoever waits for a refresh of the copy shares its failure. -/
theorem failsWith_of_waiting (hrun : Uses Calls (m.opened w) s) {i : Cache.CallerId}
    {j : Cache.RefreshId} (hwaits : i ∈ (s.held? copy).cache.waitersOf j) : FailsWith i j s := by
  have hkeeps (p : Procedure Ending) (hp : Calls p) (v : View) (hgood : m.Arises v) :
      m.discipline.Keeps v v p := keeps_calls hp hgood
  have horderly := orderly_run hrun
  have hstaffed := staffed_run hrun
  obtain ⟨signal, next, ⟨-, hawaits, -⟩, hw, hp⟩ :=
    (horderly.everyone.position i).waiting_of_mem hwaits
  obtain ⟨rfl, hnext⟩ := hawaits.1 rfl
  cases hnext with
  | refresh k hnext =>
    have hthread : ⟨i, .token copy none next⟩ ∈ s.threads := by
      have hmem : ⟨i, .token copy none next⟩ ∈ s.threads.filter (fun t => t.id = i) := by
        rw [hw.threads]
        exact List.mem_singleton_self _
      exact (List.mem_filter.mp hmem).1
    exact .refresh k (hstaffed.working_waiting hthread (hnext .undefined)) fun s' e huses hj =>
      operation_concludes operates hkeeps (fun _ hp => hp.elsewhere) horderly hstaffed
        (sound_run hrun) hnext hw hp huses hj
  | call name hnext =>
    exact .call name fun s' e huses hj => call_concludes operates hkeeps
      (fun _ hp => hp.elsewhere) horderly hstaffed (sound_run hrun) hnext hw hp huses hj

/-- In every run of an impersonation over an account without scopes, the account is scoped once at
most, to the whole platform, and before anything is sent; the account itself stays as it was made,
and never has a token requested. Whatever is sent is the copy's request for a token or goes to the
service with the headers of a token that the copy has obtained, of which the bearer's is one. One
request for a token at most is out whose refresh has not settled, and it is only sent when a reading
of the clock has shown that the cached token was not fresh; if the clock goes on steadily, the token
is not fresh then either. And whoever waits for a token of the copy ends with an error that the
failure to get one has caused, as do those who wait for a refresh that ends so. -/
theorem source_scoped_once (hrun : Uses Calls (m.opened w) s) :
    (s.held.map Held.credential = m.unshared ∧ s.requests = [] ∨
      s.held.map Held.credential = m.shared) ∧
    (∀ s', Uses Calls s s' → s.held.map Held.credential = m.shared →
      s'.held.map Held.credential = m.shared) ∧
    (s.held? original).cache = .initial m.sourceSetup.token ∧
    (∀ r outcome earlier, (r, outcome) :: earlier <:+ s.contacts w.replies → m.Sends earlier r) ∧
    (∀ (t : Token) r, m.CallsService (m.copyCredential.decorate t.metadata) r →
      (∀ f ∈ m.sourceSetup.headers, "Authorization" ≠ f.1) →
      ("Authorization", "Bearer " ++ t.value) ∈ r.headers.getD []) ∧
    (m.source.key.SignsTokens → settled s ≤ m.sent s ∧ m.sent s ≤ settled s + 1) ∧
    (¬ m.source.key.SignsTokens → m.sent s = 0) ∧
    (∀ s', Use Calls s s' → m.sent s < m.sent s' →
      Lapsed (Use Calls) (m.opened w) s' (s'.held? copy).cache.token) ∧
    (∀ s', ReflTransGen (Steady Calls) (m.opened w) s → Steady Calls s s' → m.sent s < m.sent s' →
      (s'.held? copy).cache.freshness s'.now ≠ .fresh) ∧
    (∀ i j, i ∈ (s.held? copy).cache.waitersOf j → FailsWith i j s) ∧
    Rejecting Calls wrapper s := by
  have hkeeps (p : Procedure Ending) (hp : Calls p) (v : View) (hgood : m.Arises v) :
      m.discipline.Keeps v v p := keeps_calls hp hgood
  have horderly := orderly_run hrun
  have hstaffed := staffed_run hrun
  refine ⟨?_, fun s' huses htable => ?_, ?_, horderly.good.sends,
    fun _ _ => CallsService.bearer, fun hkey => ?_, fun hkey => ?_,
    fun s' huse => lapsed_of_sending (fun _ _ h => h) hrun huse, fun s' hsteady hstep hsent => ?_,
    fun i j => failsWith_of_waiting hrun, ?_⟩
  · rcases horderly.good.table with ⟨htable, hcontacts⟩ | htable
    · exact .inl ⟨htable, requests_of_contacts hcontacts⟩
    · exact .inr htable
  · exact shared_later (lands_uses operates hkeeps horderly huses).later htable
  · have hunused := horderly.unused original (by rintro (h | h) <;> cases h)
    have hcredential : (s.held? original).credential = m.sourceCredential := by
      have hview : (s.view w.replies).credential original = (s.held? original).credential :=
        view_credential original
      rw [← hview]
      exact horderly.good.original
    rw [hunused, hcredential]
    rfl
  · exact (books_run hkey (fun _ _ h => h) hrun).outstanding (horderly.latest copy) hstaffed
  · exact Nat.eq_zero_of_not_pos fun hpos => hkey (signs_of_sent hpos)
  · exact not_fresh_of_lapsed (hrun.tail hstep.1)
      (lapsed_of_sending (fun _ _ h => h.1) hsteady hstep hsent)
  · exact rejecting_of_orderly operates hkeeps (fun _ hp => hp.elsewhere) horderly hstaffed
      (sound_run hrun) fun _ _ hawaits => hawaits.2 rfl

/-- An impersonation over an account that has this key and no scopes. -/
def keyed (key : Crypto.PrivateKey) : Impersonation :=
  { source := { clientEmail := "robot@project.example", key }
    impersonated := { source := original, target := "runner@project.example", scopes := ["read"],
                      lifetime := .longest }
    unscoped := rfl }

/-- Something is to be signed, so that a token of the copy is needed. -/
def asked (key : Crypto.PrivateKey) (w : World) : Session :=
  ((keyed key).opened w).spawn (Ending.call "sign" <$>
    (Answer.bytes <$> Credential.sign wrapper [0]).attempt)

/-- The authorization server grants a token, and the service signs with it. -/
def granting : World :=
  { now := 0
    replies :=
      [{ outcome := .ok
          { status := 200, body := .ok "\x7b\"access_token\":\"granted\",\"expires_in\":60\x7d" } },
       { outcome := .ok { status := 200, body := .ok "\x7b\"signedBlob\":\"AA==\"\x7d" } }] }

/-- What happens with a key that is just long enough to sign tokens. -/
def signed : Session := (asked (.rsa (2 ^ 2047) 1) granting).work 20

/-- What happens at first with a key that is not for signing tokens, when the token is to be
refreshed besides. -/
def unsigned : Session :=
  ((asked .other { now := 0 }).spawn (Ending.call "refresh" <$>
    ((fun _ => Answer.nothing) <$> Credential.refresh wrapper none).attempt)).work 2

/-- With one key the copy gets its token, and the service is called with that. With the other one
both the signing and the refresh wait for the one refresh of the copy, which fails because nothing
can be signed, and share its failure. -/
theorem source_scoped_once_signed :
    (signed.held.map Held.credential = (keyed (.rsa (2 ^ 2047) 1)).shared ∧
      ∃ r t, signed.requests.head? = some r ∧ r.url = Iam.signBlobUrl "runner@project.example" ∧
        (keyed (.rsa (2 ^ 2047) 1)).Obtained (signed.contacts granting.replies) t ∧
        ("Authorization", "Bearer " ++ t.value) ∈ r.headers.getD []) ∧
    unsigned.held.map Held.credential = (keyed .other).shared ∧
    (unsigned.held? copy).cache.waitersOf 0 = [1, 3] ∧
    ((unsigned.work 10).held? copy).cache.stage? 0 =
      some (.finished (.error (.platform .wrongKey))) ∧
    FailsWith 1 0 unsigned ∧ FailsWith 3 0 unsigned := by
  refine ⟨?_, ?_⟩
  · have hrun : Uses Calls ((keyed (.rsa (2 ^ 2047) 1)).opened granting) signed :=
      .head (.start (.sign "sign" [0])) (uses_work 20 _)
    obtain ⟨htable, -, -, hsends, hbearer, -⟩ := source_scoped_once hrun
    have hurl : signed.requests.head?.map Http.Request.url =
        some (Iam.signBlobUrl "runner@project.example") := by decide +kernel
    obtain ⟨r, hr, hsigns⟩ := Option.map_eq_some_iff.mp hurl
    obtain ⟨earlier, hrequests⟩ := List.head?_eq_some_iff.mp hr
    have hcontact : (r, answerAt granting.replies earlier.length r) ::
        contactsOf granting.replies earlier <:+ signed.contacts granting.replies := by
      rw [contacts, hrequests]
      exact List.suffix_rfl
    refine ⟨htable.resolve_left fun h => ?_, ?_⟩
    · rw [hrequests] at h
      exact List.cons_ne_nil _ _ h.2
    · cases hsends _ _ _ hcontact with
      | token h =>
        obtain ⟨now, assertion, -, rfl⟩ := h
        exact absurd hsigns
          (show Google.tokenUrl ≠ Iam.signBlobUrl "runner@project.example" by decide)
      | @service t ht h =>
        have hobtained := ht.mono ((List.suffix_cons _ _).trans hcontact)
        exact ⟨r, t, hr, hsigns, hobtained, hbearer t r h fun f hf => absurd hf List.not_mem_nil⟩
  · have hwaits : (unsigned.held? copy).cache.waitersOf 0 = [1, 3] := rfl
    have hrun : Uses Calls ((keyed .other).opened { now := 0 }) unsigned :=
      .head (.start (.sign "sign" [0])) (.head (.start (.call (.refresh "refresh" none)))
        (uses_work 2 _))
    obtain ⟨-, -, -, -, -, -, -, -, -, hfails, -⟩ := source_scoped_once hrun
    exact ⟨rfl, hwaits, rfl, hfails 1 0 (hwaits ▸ List.mem_cons_self),
      hfails 3 0 (hwaits ▸ List.mem_cons_of_mem 1 (List.mem_singleton_self 3))⟩

end Bearer.Impersonation
