import Bearer.Proofs.Authorizer.Calls
import Bearer.Proofs.Authorizer.StoredTokens
import Bearer.Proofs.Session.Alone
import Bearer.Proofs.Session.Onward

namespace Bearer

namespace Session

variable {s s' : Session}

theorem transmit_trace (s : Session) (r : Http.Request) :
    ∃ seen, (s.transmit r).2.trace = seen ++ s.trace ∧ ∀ o ∈ seen, ∃ sent, o = .sent sent := by
  have htake (s : Session) : (s.takeReply r).2.trace = s.trace := by
    unfold takeReply
    split <;> rfl
  unfold transmit
  split
  · have hleaves : (if Http.Network.leaves r then s.takeReply r
        else ({ outcome := .error (unexpected r) }, s)).2.trace = s.trace := by
      split
      · exact htake s
      · rfl
    unfold transmitWrapped
    generalize (if Http.Network.leaves r then s.takeReply r
      else ({ outcome := .error (unexpected r) }, s)) = taken at hleaves
    dsimp only
    split
    · exact ⟨[_], congrArg (_ :: ·) hleaves, fun o ho => ⟨_, List.mem_singleton.mp ho⟩⟩
    · exact ⟨[], hleaves, nofun⟩
  · exact ⟨[.sent r], htake _, fun o ho => ⟨_, List.mem_singleton.mp ho⟩⟩

theorem arrive_trace (s : Session) (reply : Reply) (job : Job) :
    (s.arrive reply job).trace = s.trace := by
  unfold arrive
  split
  · rfl
  · split <;> rfl

theorem send_unsettled (s : Session) (r : Http.Request) (id : Cache.CallerId)
    (next : Result Http.Response → Procedure Ending) (name : String) (outcome : Result Answer) :
    (advance id (.ask (.send r) next) s).trace ≠ .answered name outcome :: s.trace := by
  obtain ⟨seen, hseen, hsent⟩ := transmit_trace s r
  have htrace : (advance id (.ask (.send r) next) s).trace = seen ++ s.trace :=
    (arrive_trace _ _ _).trans hseen
  intro h
  obtain rfl : seen = [.answered name outcome] := List.append_cancel_right (htrace.symm.trans h)
  obtain ⟨sent, hcontra⟩ := hsent _ List.mem_cons_self
  cases hcontra

end Session

namespace Authorizer

open Session Procedure

/-- The entry, if there is one, can be read. -/
def Readable (entry : Option String) : Prop :=
  ∀ text, entry = some text → ∃ s, Stored.ofText text = .ok s

theorem readable_of_ok {text : String} {s : Stored} (h : Stored.ofText text = .ok s) :
    Readable (some text) := by
  rintro _ ⟨⟩
  exact ⟨s, h⟩

/-- How a revocation goes on when the entry is loaded. -/
def revoking (a : Authorizer) (name user : String) (entry : Option String) : Procedure Ending :=
  calling name ((fun _ => .nothing) <$> a.revokeEntry user entry)

def forgetting (name user : String) (outcome : Result Unit) : Procedure Ending :=
  .ask (.store (.delete user)) fun r =>
    .done (.ok (.call name (r >>= fun _ => outcome.map fun _ => .nothing)))

def verdict (r : Result Http.Response) : Result Unit :=
  r >>= fun response => if response.status ≠ Http.statusOk then
    response.fail "error revoking authorization" else .ok ()

variable {a : Authorizer} {name user : String}

theorem revoking_none : a.revoking name user none = .done (.ok (.call name (.ok .nothing))) := rfl

theorem revoking_error {text : String} {failure : Thrown}
    (h : Stored.ofText text = .error failure) :
    a.revoking name user (some text) = .done (.ok (.call name (.error failure))) := by
  show calling name ((fun _ => .nothing) <$> (ofResult (Stored.ofText text) >>= _)) = _
  rw [h]
  rfl

theorem calling_delete (outcome : Result Unit) :
    calling name ((fun _ => .nothing) <$>
      (callStore (.delete user) >>= fun _ => ofResult outcome)) = forgetting name user outcome := by
  refine congrArg (Procedure.ask (.store (.delete user))) (funext fun r => ?_)
  cases r with
  | error failure => rfl
  | ok found => cases outcome <;> rfl

def revocation (a : Authorizer) (grant : String) : Http.Request :=
  Http.postForm (a.revokeUri.getD Google.revokeUrl) (.ofStrings [("token", some grant)])

/-- The server is told of a grant before that is forgotten. -/
theorem revoking_ok {text : String} {s : Stored} (h : Stored.ofText text = .ok s) :
    a.revoking name user (some text) = match s.grant? with
      | none => forgetting name user (.ok ())
      | some grant =>
        .ask (.send (a.revocation grant)) fun answer => forgetting name user (verdict answer) := by
  have hentry : a.revokeEntry user (some text) = (a.revokeGrant s).attempt >>= fun outcome =>
      callStore (.delete user) >>= fun _ => ofResult outcome := by
    unfold revokeEntry
    simp only [h]
    rfl
  unfold revoking
  rw [hentry]
  unfold revokeGrant
  cases s.grant? with
  | none => exact calling_delete (.ok ())
  | some token =>
    refine congrArg (Procedure.ask (.send (a.revocation token))) (funext fun answer => ?_)
    rw [← calling_delete]
    cases answer with
    | error failure => rfl
    | ok response =>
      have hanswer : (if response.status ≠ Http.statusOk then
          (liftM (response.fail "error revoking authorization" : Result Unit) : Procedure Unit)
          else pure ()) = ofResult (verdict (.ok response)) := by
        unfold verdict
        split
        · next hstatus => exact congrArg ofResult (if_pos hstatus).symm
        · next hstatus => exact congrArg ofResult (if_neg hstatus).symm
      show calling name ((fun _ => .nothing) <$> (Procedure.attempt (if _ then _ else _) >>= _)) = _
      rw [hanswer]
      rfl

/-- How far the thread of a revocation has come that found this entry, and what the entry is
by then. -/
inductive Phase (a : Authorizer) (name user : String) (found : Option String) :
    Option (Procedure Ending) → Option String → Prop
  | loaded : Phase a name user found (some (a.revoking name user found)) found
  | told (hread : Readable found) (outcome : Result Unit) (entry : Option String) :
      Phase a name user found (some (forgetting name user outcome)) entry
  | forgotten (hread : Readable found) (outcome : Result Answer) :
      Phase a name user found (some (.done (.ok (.call name outcome)))) none
  | finished (entry : Option String) : Phase a name user found none entry

abbrev Revoking (a : Authorizer) (name user : String) (i : Cache.CallerId)
    (found : Option String) : Session → Prop :=
  Phased i fun program s => s.store.Reliable ∧ Phase a name user found program (s.store.find? user)

/-- How a revocation may end that found this entry. -/
def Ended (user : String) (found : Option String) (outcome : Result Answer) (s : Session) : Prop :=
  (Readable found → s.store.find? user = none) ∧
  ∀ text failure, found = some text → Stored.ofText text = .error failure →
    outcome = .error failure ∧ s.store.find? user = some text

variable {i : Cache.CallerId} {found : Option String} {s s' t : Session}

theorem forgetting_unsettled (s : Session) (outcome : Result Unit) (answer : Result Answer) :
    (advance i (forgetting name user outcome) s).trace ≠ .answered name answer :: s.trace := by
  intro h
  have hhead : Observation.stored (.delete user) = .answered name answer := (List.cons.inj h).1
  cases hhead

/-- What it takes for a piece of a revocation's work to be right. -/
structure Proceeds (a : Authorizer) (name user : String) (i : Cache.CallerId)
    (found : Option String) (s s' : Session) : Prop where
  goes : Revoking a name user i found s'
  spares : ∀ other, other ≠ user → s'.store.find? other = s.store.find? other
  ends : ∀ outcome, s'.trace = .answered name outcome :: s.trace → Ended user found outcome s'

theorem proceeds_forgetting (hs : s.store.Reliable) (halone : Alone i none s)
    (hread : Readable found) (outcome : Result Unit) :
    Proceeds a name user i found s (advance i (forgetting name user outcome) s) := by
  have hstore : (advance i (forgetting name user outcome) s).store = s.store.erase user :=
    congrArg Prod.fst (hs.perform_delete user)
  refine ⟨⟨_, halone.store _ _, hstore ▸ ⟨hs.load, hs.store, hs.delete⟩, ?_⟩,
    fun other hother => ?_, fun answer h => absurd h (forgetting_unsettled s outcome answer)⟩
  · rw [hstore, TokenStore.find?_erase, if_pos rfl, hs.perform_delete]
    exact .forgotten hread _
  · rw [hstore, TokenStore.find?_erase, if_neg hother]

theorem proceeds_done (hs : s.store.Reliable) (halone : Alone i none s) {outcome : Result Answer}
    (hended : Ended user found outcome s) :
    Proceeds a name user i found s (advance i (.done (.ok (.call name outcome))) s) := by
  refine ⟨⟨none, halone.act (.observe _ trivial), hs, .finished _⟩, fun other _ => rfl,
    fun answer h => ?_⟩
  obtain rfl : outcome = answer := by
    have hhead := (List.cons.inj h).1
    cases hhead
    rfl
  exact hended

/-- The thread of a revocation goes on: no other entry changes, and if the call comes back the
entry is gone, unless it could not be read. -/
theorem proceeds {p : Procedure Ending} (hnone : Alone i none s) (hs : s.store.Reliable)
    (hphase : Phase a name user found (some p) (s.store.find? user)) :
    Proceeds a name user i found s (advance i p s) := by
  generalize hentry : s.store.find? user = entry at hphase
  cases hphase with
  | loaded =>
    rcases hfound : found with - | text
    · rw [revoking_none]
      exact proceeds_done hs hnone ⟨fun _ => hentry.trans hfound, nofun⟩
    cases hread : Stored.ofText text with
    | error failure =>
      rw [revoking_error hread]
      refine proceeds_done hs hnone ⟨fun hreadable => ?_, fun other failure' h hfail => ?_⟩
      · obtain ⟨stored, hstored⟩ := hreadable text rfl
        cases hread.symm.trans hstored
      · obtain rfl : text = other := Option.some.inj h
        cases hread.symm.trans hfail
        exact ⟨rfl, hentry.trans hfound⟩
    | ok stored =>
      have hreadable := readable_of_ok hread
      rw [revoking_ok hread]
      cases stored.grant? with
      | none => exact proceeds_forgetting hs hnone hreadable _
      | some grant =>
        refine ⟨⟨_, hnone.send (a.revocation grant) _, ?_, .told hreadable _ _⟩, fun other _ => ?_,
          fun answer h => absurd h (send_unsettled _ _ _ _ _ _)⟩
        · rwa [send_store]
        · rw [send_store]
  | told hread outcome => exact proceeds_forgetting hs hnone hread outcome
  | forgotten hread outcome =>
    refine proceeds_done hs hnone ⟨fun _ => hentry, fun text failure hfound hfail => ?_⟩
    obtain ⟨stored, hstored⟩ := hread text hfound
    cases hfail.symm.trans hstored

theorem Revoking.own (h : Revoking a name user i found s) {job : Job}
    (htake : s.takeJob? = some (job, t)) (hown : job.Of i) :
    Proceeds a name user i found t (t.perform job) := by
  obtain ⟨p, rfl, ⟨hreliable, hphase⟩, hnone⟩ := Phased.own h htake hown
  rw [← takeJob?_store htake] at hreliable hphase
  exact proceeds hnone hreliable hphase

/-- Whatever else goes on meanwhile, a revocation stays on its way. -/
theorem Revoking.run (h : Revoking a name user i found s) (hrun : OwnedRun (Job.Of i) user s s') :
    Revoking a name user i found s' := by
  refine Phased.run (fun _ _ hstep => hstep.1) (fun s t p htake hnone hphase => ?_)
    (fun program s s' _ hstep hdoes hphase => ?_) h hrun
  · rw [← takeJob?_store htake] at hphase
    exact (proceeds hnone hphase.1 hphase.2).goes
  · exact ⟨hstep.1.reliable hphase.1, hstep.2.resolve_left hdoes ▸ hphase.2⟩

/-- A revocation loads the entry before anything else can happen. -/
theorem spawn_revoke (ha : a.stores = true) (hs : s.store.Reliable) (name user : String) :
    s.spawn (calling name ((fun _ => .nothing) <$> a.revoke user)) =
      ({ s with born := s.born + 1 }.observe (.stored (.load user))).doNext
        (.resume s.born (a.revoking name user (s.store.find? user))) := by
  rw [revoke_eq ha]
  exact spawn_load hs name user _ _

theorem revoking_spawn (ha : a.stores = true) (hs : s.Sound (fun _ => True) none)
    (hmemory : s.store.Reliable) (name user : String) :
    Revoking a name user s.born (s.store.find? user)
      (s.spawn (calling name ((fun _ => .nothing) <$> a.revoke user))) := by
  rw [spawn_revoke ha hmemory]
  exact ⟨_, (hs.alone.act (.observe (.stored (.load user)) trivial)).put .next, hmemory, .loaded⟩

end Authorizer

namespace Session

open Authorizer

/-- A revocation forgets the user whatever the server answers, if there was nothing to read or it
could be read: in every run in which nobody else writes the user's entry, that is gone when the
call comes back, and the revocation touches no entry but that. An entry that cannot be read makes
the call fail, and stays. -/
theorem readable_entry_forgotten {w : World} {wraps : Bool} {s : Session}
    (hs : Steps (fun _ => True) (w.session wraps) s) (hmemory : w.store.Reliable)
    {a : Authorizer} (ha : a.stores = true) (name user : String) :
    let found := s.store.find? user
    let start := s.spawn (calling name ((fun _ => .nothing) <$> a.revoke user))
    start.store = s.store ∧
    ∀ t, OwnedRun (Job.Of s.born) user start t →
      (∀ t', Does (Job.Of s.born) t t' → ∀ other, other ≠ user →
        t'.store.find? other = t.store.find? other) ∧
      ∀ t' outcome, Settles s.born name outcome t t' →
        (Readable found → t'.store.find? user = none) ∧
        ∀ text failure, found = some text → Stored.ofText text = .error failure →
          outcome = .error failure ∧ t'.store.find? user = some text := by
  intro found start
  have hsound : s.Sound (fun _ => True) none := (sound_session w wraps).steps hs
  have hreliable := hs.reliable hmemory
  refine ⟨?_, fun t hrun => ?_⟩
  · show (s.spawn _).store = s.store
    rw [spawn_revoke ha hreliable]
    rfl
  have hrevoking := (revoking_spawn ha hsound hreliable name user).run hrun
  refine ⟨fun t' hdoes other hother => ?_, fun t' outcome hsettles => ?_⟩
  · obtain ⟨job, u, htake, hown, rfl⟩ := hdoes
    rw [(hrevoking.own htake hown).spares other hother, takeJob?_store htake]
  · obtain ⟨p, u, htake, rfl, htrace⟩ := hsettles
    exact (hrevoking.own htake rfl).ends outcome htrace

theorem readable_entry_forgotten_unreachable :
    let text := (Stored.document ⟨none, some "grant"⟩).render
    let w : World := { now := 0, store := { entries := [("user", text), ("other", "kept")] } }
    let start := w.session.spawn (calling "revoke" ((fun _ => .nothing) <$> keeper.revoke "user"))
    OwnedRun (Job.Of 0) "user" start (start.work 2) ∧
      (∃ failure, Settles 0 "revoke" (.error failure) (start.work 2) (start.work 3)) ∧
      (start.work 3).store.find? "user" = none := by
  intro text w start
  have hread : Stored.ofText text = .ok ⟨none, some "grant"⟩ :=
    Stored.ofText_document (s := ⟨none, some "grant"⟩) nofun
  have hmemory : w.store.Reliable := ⟨rfl, rfl, rfl⟩
  have hrefl : Steps (fun _ => True) w.session w.session := .refl
  obtain ⟨-, hforgotten⟩ :=
    readable_entry_forgotten hrefl hmemory (a := keeper) rfl "revoke" "user"
  have hstart : start = _ := spawn_revoke (a := keeper) (s := w.session) rfl hmemory "revoke" "user"
  have hfound : w.session.store.find? "user" = some text := rfl
  rw [hfound, revoking_ok hread] at hstart
  have hstep {s t : Session} {p : Procedure Ending} (h : s.takeJob? = some (.resume 0 p, t)) :
      OwnedStep (Job.Of 0) "user" s (t.perform (.resume 0 p)) :=
    ⟨.work h, .inl ⟨_, t, h, rfl, rfl⟩⟩
  -- The request fails, then the entry is removed, and then the call comes back.
  have hsend : OwnedStep (Job.Of 0) "user" start (start.work 1) := by
    rw [hstart]
    exact hstep rfl
  have hdelete : OwnedStep (Job.Of 0) "user" (start.work 1) (start.work 2) := by
    rw [hstart]
    exact hstep rfl
  have hsettles : Settles 0 "revoke" (.error (unexpected (keeper.revocation "grant")))
      (start.work 2) (start.work 3) := by
    rw [hstart]
    exact ⟨_, _, rfl, rfl, rfl⟩
  have hrun := (Relation.ReflTransGen.single hsend).tail hdelete
  obtain ⟨hforgets, -⟩ := (hforgotten _ hrun).2 _ _ hsettles
  exact ⟨hrun, ⟨_, hsettles⟩, hforgets (readable_of_ok hread)⟩

/-- What cannot be read stays. -/
theorem unreadable_entry_kept :
    let w : World := { now := 0, store := { entries := [("user", "not json")] } }
    let s := w.session.play [.call "revoke" ((fun _ => .nothing) <$> keeper.revoke "user"), .work]
    s.trace.head? = some (.answered "revoke" (.error (Fault.invalidDocument storeContext).thrown)) ∧
      s.inner = [] ∧ s.agenda = [] ∧ s.store.find? "user" = some "not json" := by
  intro w s
  exact ⟨rfl, rfl, rfl, rfl⟩

end Session
end Bearer
