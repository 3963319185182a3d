import Bearer.Proofs.Authorizer.Redemption
import Bearer.Proofs.Credential.ScopedSource

namespace Bearer

open Session

/-- A call that has a credential copied, with what the copy has in place of the original's. -/
inductive Copying where
  | scoping (scopes : List String)
  | delegation (user : Given String)

namespace Copying

def scopes? : Copying → Option (List String)
  | scoping scopes => some scopes
  | delegation _ => none

def user? : Copying → Option (Given String)
  | scoping _ => none
  | delegation user => some user

/-- The scopes that were asked for last. -/
def lastScopes? (ks : List Copying) : Option (List String) := ks.reverse.findSome? scopes?

/-- The user who was named last. -/
def lastUser? (ks : List Copying) : Option (Given String) := ks.reverse.findSome? user?

def copy (c : CredentialId) : Copying → Procedure CredentialId
  | scoping scopes => Credential.createScoped c scopes
  | delegation user => Credential.createDelegated c user

/-- The program of the thread that has a credential copied and hands out the copy. -/
def program (name : String) (c : CredentialId) (k : Copying) : Procedure Ending :=
  calling name (Answer.made <$> k.copy c)

end Copying

def ServiceAccount.copied (a : ServiceAccount) (ks : List Copying) : ServiceAccount :=
  { a with
    scopes := (Copying.lastScopes? ks).getD a.scopes
    user := (Copying.lastUser? ks).getD a.user }

/-- A credential as the copies of its account are. -/
def Credential.copied (c : Credential) (a : ServiceAccount) (ks : List Copying) : Credential :=
  { c with kind := .serviceAccount (a.copied ks), token := none }

/-- A credential comes of another by these calls, each of which copies what the one before has
handed out. Anything may happen between them. -/
inductive Derives (s : Session) (c : CredentialId) :
    List Copying → Session → CredentialId → Prop
  | original : Derives s c [] s c
  | copy {ks : List Copying} {t t' : Session} {d d' : CredentialId} (h : Derives s c ks t d)
      (hsteps : Steps (fun _ => True) t t') (name : String) (k : Copying)
      (hanswer : (t'.spawn (k.program name d)).trace.head? =
        some (.answered name (.ok (Answer.made d')))) :
      Derives s c (ks ++ [k]) (t'.spawn (k.program name d)) d'

def Session.WillSend (s : Session) (id : Cache.CallerId) (r : Http.Request) : Prop :=
  ∃ next, .resume id (.ask (.send r) next) ∈ s.jobs

namespace ServiceAccount

theorem copied_append (a : ServiceAccount) (ks : List Copying) (k : Copying) :
    (a.copied ks).copied [k] = a.copied (ks ++ [k]) := by
  cases k <;>
    simp [copied, Copying.lastScopes?, Copying.lastUser?, Copying.scopes?, Copying.user?,
      List.findSome?_cons]

end ServiceAccount

/-- Who copies a credential looks at it first. -/
theorem Copying.copy_looks (self : CredentialId) (k : Copying) :
    ∃ next, k.copy self = .ask (.credential self) next ∧
      ∀ (c : Credential) a, c.kind = .serviceAccount a →
        next c = .ask (.create (c.copied a [k])) fun d => .done (.ok d) := by
  cases k with
  | scoping | delegation =>
    refine ⟨_, rfl, ?_⟩
    rintro ⟨setup, kind⟩ a rfl
    rfl

namespace Session

variable {s : Session} {c : CredentialId} {a : ServiceAccount}

/-- All that a call does is to make the copy and to hand it out. -/
theorem spawn_copying (hkind : (s.held? c).credential.kind = .serviceAccount a) (name : String)
    (k : Copying) : s.spawn (k.program name c) =
      (({ s with born := s.born + 1 } : Session).make ((s.held? c).credential.copied a [k])).observe
        (.answered name (.ok (Answer.made s.held.length))) := by
  obtain ⟨next, hcopy, hnext⟩ := k.copy_looks c
  rw [Copying.program, hcopy]
  show advance s.born (calling name (Answer.made <$> next (s.held? c).credential)) _ = _
  rw [hnext _ a hkind]
  rfl

theorem runOperation_serviceAccount (hkind : (s.held? c).credential.kind = .serviceAccount a)
    (k : Cache.RefreshId) : s.runOperation c k =
      s.spawn (Ending.operation c k <$> a.requestToken.attempt) := by
  obtain ⟨next, hrequest, -, -, hnext, -⟩ := Credential.requestToken_looks c
  rw [runOperation, hrequest]
  show advance s.born (Ending.operation c k <$> (next (s.held? c).credential).attempt) _ = _
  rw [hnext _ a hkind]
  rfl

@[simp] theorem willSend_stepCache {executor : Executor} {e : Cache.Event} {id : Cache.CallerId}
    {r : Http.Request} : (s.stepCache c executor e).WillSend id r ↔ s.WillSend id r := by
  simp [WillSend, stepCache_jobs]

theorem willSend_doLater {id : Cache.CallerId} {program : Procedure Ending} {r : Http.Request} :
    (s.doLater (.resume id program)).WillSend id r ↔
      (∃ next, program = .ask (.send r) next) ∨ s.WillSend id r := by
  have hjobs : ∀ job, job ∈ (s.doLater (.resume id program)).jobs ↔
      job = .resume id program ∨ job ∈ s.jobs := by
    intro job
    simp only [mem_jobs, doLater, List.mem_append, List.mem_singleton]
    tauto
  simp only [WillSend, hjobs, Job.resume.injEq, true_and, exists_or]
  exact or_congr (exists_congr fun next => eq_comm) .rfl

/-- Nobody has work for a thread that is yet to be born. -/
theorem Sound.not_willSend {P : Query → Prop} (hs : s.Sound P none) (r : Http.Request) :
    ¬ s.WillSend s.born r := by
  rintro ⟨next, hjob⟩
  exact Nat.lt_irrefl _ ((hs.jobs _ hjob).1 s.born rfl)

theorem read_born (s : Session) (born : Nat) : ({ s with born } : Session).read =
    (s.read.1, { s with born, offsets := s.offsets.tail }) := by
  obtain ⟨now, offsets⟩ := s
  cases offsets <;> rfl

/-- A refresh of a service account sends the request of the account as of when it starts, if it
can sign for it. -/
theorem willSend_runOperation {P : Query → Prop} (hs : s.Sound P none)
    (hkind : (s.held? c).credential.kind = .serviceAccount a) (k : Cache.RefreshId)
    (r : Http.Request) : (s.runOperation c k).WillSend s.born r ↔
      a.scopes ≠ [] ∧ ∃ assertion, a.assertionAt s.read.1 = .ok assertion ∧
        r = a.tokenRequest assertion := by
  rw [runOperation_serviceAccount hkind]
  by_cases hscopes : a.scopes = []
  · have hrequest : a.requestToken = .raise .scopesRequired := by
      rw [ServiceAccount.requestToken, hscopes]
      rfl
    rw [hrequest]
    show (stepCache _ c .direct (.settle k _)).WillSend s.born r ↔ _
    rw [willSend_stepCache]
    exact iff_of_false (hs.not_willSend r) fun h => h.1 hscopes
  · obtain ⟨next, hrequest, hnext⟩ := ServiceAccount.requestToken_signs hscopes
    rw [hrequest]
    show (advance s.born (Ending.operation c k <$> (next (read _).1).attempt)
      (read _).2).WillSend s.born r ↔ _
    rw [read_born]
    obtain ⟨hsigned, hunsigned⟩ := hnext s.read.1
    cases hassertion : a.assertionAt s.read.1 with
    | error e =>
      rw [hunsigned e hassertion]
      show (stepCache _ c .direct (.settle k _)).WillSend s.born r ↔ _
      rw [willSend_stepCache]
      exact iff_of_false (hs.not_willSend r) fun h => by simp at h
    | ok assertion =>
      rw [hsigned assertion hassertion]
      show (doLater _ (.resume s.born (.ask (.send (a.tokenRequest assertion)) _))).WillSend
        s.born r ↔ _
      refine (willSend_doLater.trans (or_iff_left (hs.not_willSend r))).trans ⟨?_, ?_⟩
      · rintro ⟨next, hask⟩
        cases hask
        exact ⟨hscopes, assertion, rfl, rfl⟩
      · rintro ⟨-, _, hsame, rfl⟩
        cases hsame
        exact ⟨_, rfl⟩

end Session

theorem Credential.copied_copied (c : Credential) (a : ServiceAccount) (ks : List Copying)
    (k : Copying) : (c.copied a ks).copied (a.copied ks) [k] = c.copied a (ks ++ [k]) := by
  rw [copied, copied, copied, a.copied_append]

namespace Session

variable {s t : Session} {c d : CredentialId} {a : ServiceAccount}

theorem Steps.serviceAccount (h : Steps (fun _ => True) s t) (hs : s.Sound (fun _ => True) none)
    (hc : c < s.held.length) (hkind : (s.held? c).credential.kind = .serviceAccount a) :
    c < t.held.length ∧ (t.held? c).credential = (s.held? c).credential := by
  obtain ⟨hc', hlasting⟩ := h.lasting hs hc
  obtain ⟨source, hsame⟩ := Credential.redirected_of_lasting hlasting
  refine ⟨hc', hsame.trans ?_⟩
  simp only [Credential.redirected, hkind]

/-- What a call hands out is a copy of the credential, and new. -/
theorem held?_spawn_copying (hkind : (s.held? c).credential.kind = .serviceAccount a)
    {name : String} {k : Copying} (hanswer : (s.spawn (k.program name c)).trace.head? =
      some (.answered name (.ok (Answer.made d)))) :
    d < (s.spawn (k.program name c)).held.length ∧
      (s.spawn (k.program name c)).held? d = .fresh ((s.held? c).credential.copied a [k]) := by
  rw [spawn_copying hkind] at hanswer ⊢
  cases hanswer
  exact ⟨held_lt_make _ _, held?_make _ _⟩

end Session

namespace Derives

variable {s t : Session} {c d : CredentialId} {a : ServiceAccount} {ks : List Copying}

theorem steps (h : Derives s c ks t d) : Steps (fun _ => True) s t := by
  induction h with
  | original => exact .refl
  | copy _ hsteps _ _ _ ih => exact (ih.trans hsteps).tail (.start (Procedure.Asks.anything _))

/-- What has come of a service account is one. Its copies are those of the original, and it is
new itself if it is a copy. -/
theorem account (hs : s.Sound (fun _ => True) none) (hc : c < s.held.length)
    (hkind : (s.held? c).credential.kind = .serviceAccount a) (h : Derives s c ks t d) :
    d < t.held.length ∧ (t.held? d).credential.kind = .serviceAccount (a.copied ks) ∧
      (∀ k, (t.held? d).credential.copied (a.copied ks) [k] =
        (s.held? c).credential.copied a (ks ++ [k])) ∧
      (ks ≠ [] → t.held? d = .fresh ((s.held? c).credential.copied a ks)) := by
  induction h with
  | original => exact ⟨hc, hkind, fun k => rfl, fun h => absurd rfl h⟩
  | @copy ks t t' d d' h hsteps name k hanswer ih =>
    obtain ⟨hd, hkind', hcopies, -⟩ := ih
    obtain ⟨-, hsame⟩ := hsteps.serviceAccount (hs.steps h.steps) hd hkind'
    obtain ⟨hd', hfresh⟩ := held?_spawn_copying (hsame ▸ hkind') hanswer
    rw [hsame, hcopies] at hfresh
    refine ⟨hd', by rw [hfresh]; rfl, fun k' => ?_, fun _ => hfresh⟩
    rw [hfresh]
    exact Credential.copied_copied _ a (ks ++ [k]) k'

/-- No call fails. -/
theorem exists_of (hs : s.Sound (fun _ => True) none) (hc : c < s.held.length)
    (hkind : (s.held? c).credential.kind = .serviceAccount a) (ks : List Copying) :
    ∃ t d, Derives s c ks t d := by
  induction ks using List.reverseRecOn with
  | nil => exact ⟨s, c, .original⟩
  | append_singleton ks k ih =>
    obtain ⟨t, d, h⟩ := ih
    obtain ⟨-, hkind', -⟩ := h.account hs hc hkind
    exact ⟨_, _, h.copy .refl "" k (by rw [spawn_copying hkind']; rfl)⟩

end Derives

/-- What holds of a credential that has come of a service account by these calls, from then on. -/
structure Copied (original : Credential) (a : ServiceAccount) (ks : List Copying) (t : Session)
    (d : CredentialId) : Prop where
  /-- A copy is as the original but for what was asked for last, has no token and nobody who
  listens. -/
  fresh : ks ≠ [] → t.held? d =
    { credential := { original with
        kind := .serviceAccount { a with
          scopes := (Copying.lastScopes? ks).getD a.scopes
          user := (Copying.lastUser? ks).getD a.user }
        token := none }
      cache := { token := none }
      listeners := [] }
  /-- Copies go through the transport, read the clock and write to the log of the original. -/
  surroundings : (t.held? d).credential.toSurroundings = original.toSurroundings
  stays : ∀ {t'}, Steps (fun _ => True) t t' →
    (t'.held? d).credential = (t.held? d).credential
  /-- To copy it makes one credential more, and changes no other. -/
  spares : ∀ {t'}, Steps (fun _ => True) t t' → ∀ name (k : Copying),
    t'.spawn (k.program name d) = { t' with
      born := t'.born + 1
      held := t'.held ++ [.fresh ((t'.held? d).credential.copied (a.copied ks) [k])]
      trace := .answered name (.ok (Answer.made t'.held.length)) :: t'.trace }
  /-- A refresh sends what the account asserts when it starts. -/
  requests : ∀ {t'}, Steps (fun _ => True) t t' → ∀ k r,
    (t'.runOperation d k).WillSend t'.born r ↔ (a.copied ks).scopes ≠ [] ∧
      ∃ assertion, Crypto.signedToken a.key a.keyId.filled?
          ((a.copied ks).claims (t'.read.1 / Double.ofNat 1000).floor) = .ok assertion ∧
        r = Http.postForm a.tokenServerUrl (.ofStrings
          [("grant_type", some ServiceAccount.grantType), ("assertion", some assertion)])

theorem Derives.copied {s t : Session} {c d : CredentialId} {a : ServiceAccount}
    {ks : List Copying} (hs : s.Sound (fun _ => True) none) (hc : c < s.held.length)
    (hkind : (s.held? c).credential.kind = .serviceAccount a) (h : Derives s c ks t d) :
    Copied (s.held? c).credential a ks t d := by
  obtain ⟨hd, hkind', hcopies, hfresh⟩ := h.account hs hc hkind
  have hsurroundings := congrArg (fun c : Credential => c.toSurroundings)
    (hcopies (.scoping []))
  have hstays : ∀ {t'}, Steps (fun _ => True) t t' →
      (t'.held? d).credential = (t.held? d).credential := fun hsteps =>
    (hsteps.serviceAccount (hs.steps h.steps) hd hkind').2
  refine ⟨hfresh, hsurroundings, hstays, fun hsteps name k => ?_, fun hsteps k r => ?_⟩
  · exact spawn_copying ((hstays hsteps).symm ▸ hkind') name k
  · have hlater := (hs.steps h.steps).steps hsteps
    exact willSend_runOperation hlater ((hstays hsteps).symm ▸ hkind') k r

/-- Scoping and delegation compose: whatever calls are made on a service account and on the copies
of it, and in whatever order, only the last scopes and the last user count. -/
theorem Session.copies_compose (w : World) (wraps : Bool) {s : Session}
    (hs : Steps (fun _ => True) (w.session wraps) s) {c : CredentialId} {a : ServiceAccount}
    (hc : c < s.held.length) (hkind : (s.held? c).credential.kind = .serviceAccount a) :
    (∀ ks, ∃ t d, Derives s c ks t d) ∧
    (∀ ks t d, Derives s c ks t d → Copied (s.held? c).credential a ks t d) ∧
    (∀ ks ks' t t' d d', Derives s c ks t d → Derives s c ks' t' d' → ks ≠ [] → ks' ≠ [] →
      Copying.lastScopes? ks = Copying.lastScopes? ks' →
      Copying.lastUser? ks = Copying.lastUser? ks' →
      t.held? d = t'.held? d' ∧
      ∀ u u', Steps (fun _ => True) t u → Steps (fun _ => True) t' u' → u.read.1 = u'.read.1 →
        ∀ k k' r, (u.runOperation d k).WillSend u.born r ↔
          (u'.runOperation d' k').WillSend u'.born r) ∧
    (∀ scopes user t t' d d', Derives s c [.scoping scopes, .delegation user] t d →
      Derives s c [.delegation user, .scoping scopes] t' d' → t.held? d = t'.held? d') := by
  have hsound := (sound_session w wraps).steps hs
  have hcopied : ∀ {ks t d}, Derives s c ks t d → Copied (s.held? c).credential a ks t d :=
    fun h => h.copied hsound hc hkind
  refine ⟨Derives.exists_of hsound hc hkind, fun _ _ _ => hcopied, ?_, ?_⟩
  · intro ks ks' t t' d d' h h' hks hks' hscopes huser
    have hsame : a.copied ks = a.copied ks' := by
      rw [ServiceAccount.copied, ServiceAccount.copied, hscopes, huser]
    refine ⟨?_, fun u u' hu hu' hread k k' r => ?_⟩
    · rw [(hcopied h).fresh hks, (hcopied h').fresh hks', hscopes, huser]
    · rw [(hcopied h).requests hu, (hcopied h').requests hu', hsame, hread]
  · intro scopes user t t' d d' h h'
    rw [(hcopied h).fresh (List.cons_ne_nil _ _), (hcopied h').fresh (List.cons_ne_nil _ _)]
    rfl

/-- A new session with one credential. -/
def Session.lone (c : Credential) : Session :=
  ({ now := 0 } : World).session.spawn ((fun _ => Ending.nothing) <$> (create c).attempt)

/-- A service account with a key that is just long enough to sign tokens. -/
def robot : ServiceAccount :=
  { clientEmail := "robot@project.example", key := .rsa (2 ^ 2047) 1, scopes := ["scope-a"] }

theorem robot_signs : robot.key.SignsTokens := ⟨2 ^ 2047, 1, rfl, by decide +kernel⟩

def robotCalls : List Copying :=
  [.delegation (.value "anna"), .scoping ["scope-b"], .delegation (.value "bob")]

theorem Session.copies_compose_robot :
    ∃ t d, Derives (lone { kind := .serviceAccount robot }) 0 robotCalls t d ∧
      t.held? d = .fresh { kind := .serviceAccount { robot with
        scopes := ["scope-b"], user := .value "bob" } } ∧
      ∃ r, (t.runOperation d 0).WillSend t.born r := by
  obtain ⟨hexists, hcopied, -⟩ := copies_compose { now := 0 } false
    (s := lone { kind := .serviceAccount robot }) (c := 0) (a := robot)
    (.single (.start (Procedure.Asks.anything _))) (by decide) rfl
  obtain ⟨t, d, h⟩ := hexists robotCalls
  obtain ⟨assertion, hassertion⟩ := robot_signs.signedToken none
    ((robot.copied robotCalls).claims (t.read.1 / Double.ofNat 1000).floor)
  have hrequests := (hcopied _ _ _ h).requests .refl 0 (robot.tokenRequest assertion)
  exact ⟨t, d, h, (hcopied _ _ _ h).fresh (List.cons_ne_nil _ _), _,
    hrequests.mpr ⟨List.cons_ne_nil _ _, assertion, hassertion, rfl⟩⟩

end Bearer
