import Bearer.Proofs.Authorizer.HandOut

namespace Bearer

open Session Procedure

namespace Authorizer

variable {a : Authorizer}

/-- How redeeming a code without a store fails: as the exchange does, and if that does not fail, for
want of the store. -/
def forfeit (a : Authorizer) (answer : Result Http.Response) (now : Double) : Thrown :=
  match answer >>= fun response => tokensIn response now >>= a.credentialOf with
  | .error failure => failure
  | .ok _ => Fault.tokenStoreRequired.thrown

theorem forfeit_ok (response : Http.Response) (now : Double) :
    a.forfeit (.ok response) now = match tokensIn response now >>= a.credentialOf with
      | .error failure => failure
      | .ok _ => Fault.tokenStoreRequired.thrown := rfl

section
variable (ha : a.stores = false) (user : String)
include ha

theorem requireStore_storeless : a.requireStore = Fault.tokenStoreRequired.raise := by
  rw [requireStore, ha]
  rfl

theorem credential?_storeless : a.credential? user = .raise .tokenStoreRequired := by
  unfold credential? loadTokens
  rw [requireStore_storeless ha]
  rfl

theorem storeCredential_storeless (c : CredentialId) :
    a.storeCredential user c = .raise .tokenStoreRequired := by
  unfold storeCredential
  rw [requireStore_storeless ha]
  rfl

theorem revoke_storeless : a.revoke user = .raise .tokenStoreRequired := by
  unfold revoke loadTokens
  rw [requireStore_storeless ha]
  rfl

end

end Authorizer

namespace Session

open Authorizer

variable {a : Authorizer} {i : Cache.CallerId} {s s' : Session}

def refuse (s : Session) (name : String) (failure : Thrown) : Session :=
  { s with born := s.born + 1 }.observe (.answered name (.error failure))

theorem sent_of_transmit (s : Session) (hwraps : s.wraps = false) (r : Http.Request) :
    (s.transmit r).2.trace = .sent r :: s.trace := by
  rw [transmit, if_neg (by simp [hwraps]), takeReply]
  split <;> rfl

/-- When the answer has come the call fails, without a word to a store. -/
theorem advance_redeemed_storeless (ha : a.stores = false) (name user : String)
    (answer : Result Http.Response) (i : Cache.CallerId) (s : Session) :
    ∃ s', Acts (fun _ => True) (some i) s s' ∧ s'.trace = s.trace ∧ s'.store = s.store ∧
      advance i (calling name (Answer.made <$> a.redeemed user answer)) s =
        s'.observe (.answered name (.error (a.forfeit answer s.read.1))) := by
  cases answer with
  | error failure => exact ⟨s, .refl, rfl, rfl, rfl⟩
  | ok response =>
    obtain ⟨hstore, htrace⟩ := read_frame s
    have hkeep : advance i (calling name (Answer.made <$> a.redeemed user (.ok response))) s =
        advance i (calling name (Answer.made <$> a.keep user (tokensIn response s.read.1)))
          s.read.2 := rfl
    rw [hkeep, keep_eq, forfeit_ok]
    cases tokensIn response s.read.1 >>= a.credentialOf with
    | error failure => exact ⟨s.read.2, read_acts s, htrace, hstore, rfl⟩
    | ok credential =>
      refine ⟨s.read.2.make credential, (read_acts s).tail (.create credential), htrace, hstore, ?_⟩
      show advance i (calling name (Answer.made <$>
        (a.storeCredential user s.read.2.held.length >>= _))) (s.read.2.make credential) = _
      rw [storeCredential_storeless ha]
      rfl

/-- The thread `i` waits for the answer to a code that nobody can keep the tokens of. -/
abbrev Forfeits (a : Authorizer) (name user : String) (answer : Result Http.Response)
    (i : Cache.CallerId) : Session → Prop :=
  Phased i fun program _ => program = none ∨
    program = some (calling name (Answer.made <$> a.redeemed user answer))

variable {name user : String} {answer : Result Http.Response}

theorem Forfeits.run (ha : a.stores = false) (h : Forfeits a name user answer i s)
    (hrun : Steps (fun _ => True) s s') : Forfeits a name user answer i s' := by
  refine Phased.run (fun _ _ hstep => hstep) (fun s t p _ hnone hphase => ?_)
    (fun program s s' _ _ _ hphase => hphase) h hrun
  obtain rfl := Option.some.inj (hphase.resolve_left nofun)
  obtain ⟨t', hacts, -, -, hdone⟩ := advance_redeemed_storeless ha name user answer i t
  rw [hdone]
  exact ⟨none, (hnone.acts hacts).act (.observe _ trivial), .inl rfl⟩

theorem Forfeits.fails (ha : a.stores = false) (h : Forfeits a name user answer i s)
    {p : Procedure Ending} (htake : s.takeJob? = some (.resume i p, s')) :
    let failed := s'.perform (.resume i p)
    failed.trace = .answered name (.error (a.forfeit answer s'.read.1)) :: s'.trace ∧
      failed.store = s'.store := by
  obtain ⟨q, hq, hphase, -⟩ := Phased.own h htake rfl
  cases hq
  obtain rfl := Option.some.inj (hphase.resolve_left nofun)
  obtain ⟨t, -, htrace, hstore, hdone⟩ := advance_redeemed_storeless ha name user answer i s'
  show (advance i _ s').trace = _ ∧ (advance i _ s').store = _
  rw [hdone]
  exact ⟨congrArg (_ :: ·) htrace, hstore⟩

/-- Without a store, tokens are neither loaded nor stored nor revoked, and nothing is sent for it.
A code is redeemed all the same if there is a way back from the consent page: it is sent, and
whatever the server answers, however long that takes and whatever else happens meanwhile, the call
fails when the answer is there. -/
theorem storeless_code_spent {w : World} {wraps : Bool} {s : Session}
    (hreached : Steps (fun _ => True) (w.session wraps) s) {a : Authorizer}
    (ha : a.stores = false) (name user : String) :
    let missing := Fault.tokenStoreRequired.thrown
    (s.spawn (calling name (Answer.credential <$> a.credential? user)) = s.refuse name missing ∧
      (∀ c, s.spawn (calling name ((fun _ => .nothing) <$> a.storeCredential user c)) =
        s.refuse name missing) ∧
      s.spawn (calling name ((fun _ => .nothing) <$> a.revoke user)) = s.refuse name missing) ∧
    ∀ code base,
      let start := s.spawn (calling name (Answer.made <$> a.redeemAndStore user code base))
      (∀ failure, a.callback base = .error failure → start = s.refuse name failure) ∧
      ∀ callback, a.callback base = .ok callback →
        let request := a.redemption code callback
        let (reply, sent) := { s with born := s.born + 1 }.transmit request
        (s.wraps = false → sent.trace = .sent request :: s.trace) ∧
        (∃ p, start = sent.arrive reply (.resume s.born p)) ∧
        ∀ t t' p, Steps (fun _ => True) start t → t.takeJob? = some (.resume s.born p, t') →
          let failed := t'.perform (.resume s.born p)
          failed.trace = .answered name (.error (a.forfeit reply.outcome t'.read.1)) :: t'.trace ∧
            failed.store = t'.store := by
  intro missing
  refine ⟨⟨?_, fun c => ?_, ?_⟩, fun code base => ⟨fun failure hcallback => ?_,
    fun callback hcallback => ?_⟩⟩
  · rw [credential?_storeless ha]
    rfl
  · rw [storeCredential_storeless ha]
    rfl
  · rw [revoke_storeless ha]
    rfl
  · rw [redeemAndStore_eq, hcallback]
    rfl
  · have hstart : s.spawn (calling name (Answer.made <$> a.redeemAndStore user code base)) =
        advance s.born (.ask (.send (a.redemption code callback)) fun answer =>
          calling name (Answer.made <$> a.redeemed user answer)) { s with born := s.born + 1 } := by
      rw [redeemAndStore_eq, hcallback]
      rfl
    -- The thread waits for its answer from the start, and nobody else can make it go on.
    have hforfeits : Forfeits a name user
        ({ s with born := s.born + 1 }.transmit (a.redemption code callback)).1.outcome s.born
        (s.spawn (calling name (Answer.made <$> a.redeemAndStore user code base))) := by
      rw [hstart]
      exact ⟨_, ((sound_session w wraps).steps hreached).alone.send _ _, .inr rfl⟩
    refine ⟨fun hwraps => sent_of_transmit { s with born := s.born + 1 } hwraps _, ⟨_, hstart⟩,
      fun t t' p hsteps htake => ?_⟩
    exact (hforfeits.run ha hsteps).fails ha htake

def forgetful : Authorizer := { keeper with stores := false }

def spending : Session :=
  let w : World := { now := 0, replies := [{ outcome := .ok granted }] }
  w.session.spawn (calling "redeem" (Answer.made <$>
    forgetful.redeemAndStore "user" (.value "code") (.value "https://app.example")))

theorem forgetful_callback :
    forgetful.callback (.value "https://app.example") =
      .ok "https://app.example/oauth2callback" := by
  rfl

theorem spending_answered :
    spending.trace =
        [.sent (forgetful.redemption (.value "code") "https://app.example/oauth2callback")] ∧
      ∃ t, spending.takeJob? = some (.resume 0 (calling "redeem"
        (Answer.made <$> forgetful.redeemed "user" (.ok granted))), t) ∧
        t.trace = spending.trace ∧ t.read.1 = 0 := by
  unfold spending
  rw [redeemAndStore_eq, forgetful_callback]
  exact ⟨rfl, _, rfl, rfl, rfl⟩

theorem forgetful_forfeit :
    forgetful.forfeit (.ok granted) 0 = Fault.tokenStoreRequired.thrown := by
  obtain ⟨credential, hmade⟩ := granted_brings
  have hsame : forgetful.credentialOf = keeper.credentialOf := rfl
  rw [forfeit_ok, hsame, hmade]

/-- The missing store costs a code: it has been sent, and granted, when the call fails for want of
the store. -/
theorem storeless_code_lost :
    forgetful.stores = false ∧ (spending.work 1).trace =
      [.answered "redeem" (.error Fault.tokenStoreRequired.thrown),
       .sent (forgetful.redemption (.value "code") "https://app.example/oauth2callback")] := by
  obtain ⟨hsent, t, htake, htrace, hnow⟩ := spending_answered
  obtain ⟨t', -, htrace', -, hdone⟩ :=
    advance_redeemed_storeless (a := forgetful) rfl "redeem" "user" (.ok granted) 0 t
  have hwork : spending.work 1 = t'.observe (.answered "redeem"
      (.error Fault.tokenStoreRequired.thrown)) := by
    rw [work, htake, ← forgetful_forfeit, ← hnow]
    exact hdone
  refine ⟨rfl, ?_⟩
  rw [hwork]
  exact congrArg (_ :: ·) (htrace'.trans (htrace.trans hsent))

theorem storeless_code_spent_granted :
    ∃ t p, spending.takeJob? = some (.resume 0 p, t) ∧
      (t.perform (.resume 0 p)).trace =
        .answered "redeem" (.error Fault.tokenStoreRequired.thrown) :: t.trace := by
  let w : World := { now := 0, replies := [{ outcome := .ok granted }] }
  have hanew : Steps (fun _ => True) w.session w.session := .refl
  obtain ⟨-, hredeeming⟩ := storeless_code_spent hanew (a := forgetful) rfl "redeem" "user"
  obtain ⟨-, hspent⟩ := hredeeming (.value "code") (.value "https://app.example")
  obtain ⟨-, -, hfails⟩ := hspent _ forgetful_callback
  obtain ⟨-, t, htake, -, hnow⟩ := spending_answered
  obtain ⟨htrace, -⟩ := hfails spending t _ .refl htake
  refine ⟨t, _, htake, htrace.trans ?_⟩
  rw [hnow]
  exact congrArg (fun failure => Observation.answered "redeem" (.error failure) :: t.trace)
    forgetful_forfeit

end Session
end Bearer
