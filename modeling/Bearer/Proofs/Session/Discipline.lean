import Bearer.Proofs.Session.Positions

namespace Bearer

namespace Session

open Relation (ReflTransGen)

/-- A request and what came of it. -/
abbrev Contact := Http.Request × Result Http.Response

def requests (s : Session) : List Http.Request := s.trace.filterMap Observation.request?

/-- What comes of a request before which so many were sent. -/
def answerAt (replies : List Reply) (n : Nat) (r : Http.Request) : Result Http.Response :=
  match replies[n]? with
  | some reply => reply.outcome
  | none => .error (unexpected r)

/-- Requests with what came of them, if these are all that were sent. -/
def contactsOf (replies : List Reply) : List Http.Request → List Contact
  | [] => []
  | r :: earlier => (r, answerAt replies earlier.length r) :: contactsOf replies earlier

/-- The requests of a session that began with these replies, and what came of them. -/
def contacts (replies : List Reply) (s : Session) : List Contact := contactsOf replies s.requests

/-- The requests so far with what came of them, and the credentials. -/
structure View where
  contacts : List Contact
  table : List Credential

def view (replies : List Reply) (s : Session) : View :=
  ⟨s.contacts replies, s.held.map Held.credential⟩

namespace View

def credential (v : View) (c : CredentialId) : Credential := v.table.getD c default

def met (v : View) (r : Http.Request) (outcome : Result Http.Response) : View :=
  { v with contacts := (r, outcome) :: v.contacts }

def created (v : View) (credential : Credential) : View :=
  { v with table := v.table ++ [credential] }

def redirected (v : View) (c source : CredentialId) : View :=
  { v with table := v.table.modify c (Credential.redirected source) }

end View

structure Discipline where
  /-- The circumstances that may arise. -/
  good : View → Prop
  /-- How the credentials may change. -/
  tables : List Credential → List Credential → Prop
  tables_refl : ∀ table, tables table table
  tables_trans : ∀ {a b c}, tables a b → tables b c → tables a c
  /-- The credentials whose caches are used. -/
  takesPart : CredentialId → Prop
  /-- Those that are asked for their tokens at once, and never refreshed otherwise. -/
  fetched : CredentialId → Prop
  /-- The tokens that may be in a cache. -/
  token : List Contact → CredentialId → Token → Prop
  token_mono : ∀ {before after : List Contact} {c t}, before <:+ after →
    token before c t → token after c t
  /-- What may be sent, by whom goes on like this with what comes of it. -/
  sends : View → Http.Request → (Result Http.Response → Procedure Ending) → Prop
  good_met : ∀ {v r next} outcome, good v → sends v r next → good (v.met r outcome)
  /-- What may be seen. -/
  sees : List Contact → Observation → Prop
  sees_mono : ∀ {before after : List Contact} {o}, before <:+ after → sees before o → sees after o
  sees_logged : ∀ contacts entry, sees contacts (.logged entry)
  sees_sent : ∀ contacts r, sees contacts (.sent r)
  /-- How those may go on who wait for a token. -/
  awaits : CredentialId → Option Signal → (Result (Option Token) → Procedure Ending) → Prop

namespace Discipline

variable (d : Discipline)

/-- What may have become of the circumstances after a while. -/
structure Later (v v' : View) : Prop where
  contacts : v.contacts <:+ v'.contacts
  tables : d.tables v.table v'.table
  good : d.good v'

/-- How a program may end. -/
def Ends (v : View) : Result Ending → Prop
  | .ok (.operation c _ outcome) =>
    d.takesPart c ∧ ∀ t, outcome = .ok t → d.token v.contacts c t
  | .ok (.call name outcome) => d.sees v.contacts (.answered name outcome)
  | .ok (.listener ..) => False
  | .ok .nothing => True
  | .error _ => True

/-- A program keeps the discipline: between two moments at which it lets others go on it goes
from one view to another, and what it finds after such a moment may be any later view. -/
def Keeps : View → View → Procedure Ending → Prop
  | start, v, .done outcome => d.Later start v ∧ d.Ends v outcome
  | start, v, .ask .now next => ∀ r, Keeps start v (next r)
  | start, v, .ask (.note n) next => d.sees v.contacts (.noted n) ∧ Keeps start v (next ())
  | start, v, .ask (.credential c) next => Keeps start v (next (v.credential c))
  | start, v, .ask (.create credential) next =>
    credential.token = none ∧ Keeps start (v.created credential) (next v.table.length)
  | start, v, .ask (.redirect c source) next => Keeps start (v.redirected c source) (next ())
  | start, v, .ask (.callbackFailed c _) next => d.takesPart c ∧ Keeps start v (next ())
  | start, v, .ask (.send r) next => d.Later start v ∧ d.sends v r next ∧
    ∀ outcome v', d.Later (v.met r outcome) v' → Keeps v' v' (next outcome)
  | start, v, .ask (.read _) next => d.Later start v ∧
    ∀ content v', d.Later v v' → Keeps v' v' (next content)
  | start, v, .ask .rest next => d.Later start v ∧ ∀ v', d.Later v v' → Keeps v' v' (next ())
  | start, v, .ask (.fetch c executor signal) next => d.Later start v ∧
    (d.takesPart c ∧ c < v.table.length ∧ (d.fetched c → executor = .direct)) ∧
    d.awaits c signal (fun r => next (givenToken r)) ∧
    ∀ r v', d.Later v v' → (∀ t, r = .ok (some t) → d.token v'.contacts c t) →
      Keeps v' v' (next (givenToken r))
  | start, v, .ask (.refresh c signal) next => d.Later start v ∧
    (d.takesPart c ∧ c < v.table.length ∧ ¬ d.fetched c) ∧
    d.awaits c signal (fun r => next (r.map fun _ => ())) ∧
    ∀ (r : Result (Option Token)) v', d.Later v v' →
      (∀ t, r = .ok (some t) → d.token v'.contacts c t) → Keeps v' v' (next (r.map fun _ => ()))
  | start, v, .ask (.refreshIfExpired c signal) next => d.Later start v ∧
    (d.takesPart c ∧ c < v.table.length ∧ ¬ d.fetched c) ∧
    d.awaits c signal (fun r => next (r.map fun _ => ())) ∧
    ∀ (r : Result (Option Token)) v', d.Later v v' →
      (∀ t, r = .ok (some t) → d.token v'.contacts c t) → Keeps v' v' (next (r.map fun _ => ()))
  | _, _, _ => False

/-- What the discipline expects of everyone in some circumstances. -/
def rules (v : View) : Rules where
  going p := ∀ v', d.Later v v' → d.Keeps v' v' p
  waits c signal next := d.takesPart c ∧ d.awaits c signal next ∧ ∀ r v', d.Later v v' →
    (∀ t, r = .ok (some t) → d.token v'.contacts c t) → d.Keeps v' v' (next r)
  token := d.token v.contacts

variable {d} {v v' v'' : View}

theorem Later.refl (h : d.good v) : d.Later v v := ⟨List.suffix_rfl, d.tables_refl _, h⟩

theorem Later.trans (h : d.Later v v') (h' : d.Later v' v'') : d.Later v v'' :=
  ⟨h.contacts.trans h'.contacts, d.tables_trans h.tables h'.tables, h'.good⟩

theorem Later.met {r : Http.Request} {next : Result Http.Response → Procedure Ending}
    (h : d.good v) (hr : d.sends v r next) (outcome : Result Http.Response) :
    d.Later v (v.met r outcome) :=
  ⟨List.suffix_cons _ _, d.tables_refl _, d.good_met outcome h hr⟩

theorem position_later {i : Cache.CallerId} {s : Session} (h : Position (d.rules v) i s)
    (hlater : d.Later v v') : Position (d.rules v') i s := by
  refine h.mono (fun p hp v'' h' => hp v'' (hlater.trans h')) ?_ fun c t ht => ?_
  · intro c signal next hnext
    obtain ⟨hpart, hawaits, hkeeps⟩ := hnext
    exact ⟨hpart, hawaits, fun r v'' h' hr => hkeeps r v'' (hlater.trans h') hr⟩
  · exact d.token_mono hlater.contacts ht

end Discipline

end Session

end Bearer
