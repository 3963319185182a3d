import Bearer.Proofs.Session.Discipline

namespace Bearer

namespace Procedure
variable {α : Type} {Q : Result α → Prop} {p p' : Procedure α}

/-- What a program may have come to after some replies. -/
inductive Leads : Procedure α → Procedure α → Prop
  | refl (p : Procedure α) : Leads p p
  | next {q : Query} {next : Reply q → Procedure α} (r : Reply q) {p : Procedure α}
      (h : Leads (next r) p) : Leads (ask q next) p

theorem Leads.ends (h : p.Leads p') (hp : p.Ends Q) : p'.Ends Q := by
  induction h with
  | refl p => exact hp
  | next r _ ih => exact ih (hp r)

end Procedure

/-- Others go on before there is a reply. -/
def Query.Suspends : Query → Prop
  | .send _ | .read _ | .rest | .fetch .. | .refresh .. | .refreshIfExpired .. => True
  | _ => False

/-- A program is at its end, or lets others go on. -/
def Procedure.Rests {α : Type} : Procedure α → Prop
  | .done _ => True
  | .ask q _ => q.Suspends

namespace Session

open Relation (ReflTransGen)

variable {d : Discipline} {replies : List Reply} {s t : Session} {start : View}

/-- What a program does to a session at once. -/
inductive Stride (d : Discipline) (replies : List Reply) (s : Session) : Session → Prop
  | reading {offsets : List Double} (h : offsets <:+ s.offsets) :
      Stride d replies s { s with offsets }
  | note (n : Note) (h : d.sees (s.view replies).contacts (.noted n)) :
      Stride d replies s (s.observe (.noted n))
  | create (credential : Credential) (h : credential.token = none) : Stride d replies s
      { s with held := s.held ++ [{ credential, cache := { token := credential.token } }] }
  | redirect (c source : CredentialId) : Stride d replies s (s.modifyHeld c fun h =>
      { h with credential := h.credential.redirected source })
  | warn (c : CredentialId) (failure : Thrown) (h : d.takesPart c) :
      Stride d replies s (s.stepCache c .direct (.callbackFailed failure))

abbrev Strides (d : Discipline) (replies : List Reply) : Session → Session → Prop :=
  ReflTransGen (Stride d replies)

theorem contacts_of_trace {s' : Session} (h : s'.requests = s.requests) :
    s'.contacts replies = s.contacts replies := by
  rw [contacts, contacts, h]

@[simp] theorem requests_observe_sent (r : Http.Request) :
    (s.observe (.sent r)).requests = r :: s.requests := rfl

@[simp] theorem view_noted (n : Note) : (s.observe (.noted n)).view replies = s.view replies := rfl

@[simp] theorem view_answered (name : String) (outcome : Result Answer) :
    (s.observe (.answered name outcome)).view replies = s.view replies := rfl

theorem table_modifyHeld (c : CredentialId) {f : Held → Held} {g : Credential → Credential}
    (hf : ∀ h, (f h).credential = g h.credential) :
    (s.modifyHeld c f).held.map Held.credential =
      (s.held.map Held.credential).modify c g := by
  rw [modifyHeld]
  refine List.ext_getElem? fun n => ?_
  simp only [List.getElem?_map, List.getElem?_modify]
  cases s.held[n]? with
  | none => rfl
  | some h =>
    by_cases hc : c = n
    · simp [hc, hf]
    · simp [hc]

@[simp] theorem view_stepCache (c : CredentialId) (executor : Executor) (e : Cache.Event) :
    (s.stepCache c executor e).view replies = s.view replies := by
  have htable : (s.stepCache c executor e).held.map Held.credential =
      s.held.map Held.credential := by
    have hmodify := table_modifyHeld (s := s) (g := id) c (f := fun h =>
      { h with cache := (Cache.step ⟨(s.held? c).credential.logging⟩ e (s.held? c).cache).1 })
      fun h => rfl
    exact hmodify.trans (List.modify_id c _)
  rw [view, htable]
  rfl

theorem view_create (credential : Credential) :
    ({ s with held := s.held ++ [{ credential, cache := { token := credential.token } }] } :
      Session).view replies = (s.view replies).created credential := by
  simp only [view, View.created, List.map_append, List.map_cons, List.map_nil]
  rfl

theorem view_redirect (c source : CredentialId) :
    (s.modifyHeld c fun h => { h with credential := h.credential.redirected source }).view
      replies = (s.view replies).redirected c source := by
  rw [view, table_modifyHeld (s := s) c (g := Credential.redirected source) fun h => rfl]
  rfl

theorem view_credential (c : CredentialId) :
    (s.view replies).credential c = (s.held? c).credential := by
  simp only [view, View.credential, held?, List.getD_eq_getElem?_getD, List.getElem?_map]
  cases s.held[c]? <;> rfl

theorem view_length : (s.view replies).table.length = s.held.length := by
  simp [view]

theorem advance_redirect (i : Cache.CallerId) (c source : CredentialId)
    (next : Unit → Procedure Ending) :
    advance i (.ask (.redirect c source) next) s = advance i (next ()) (s.modifyHeld c fun h =>
      { h with credential := h.credential.redirected source }) := by
  refine congrArg (fun change => advance i (next ()) (s.modifyHeld c change)) (funext fun h => ?_)
  cases hkind : h.credential.kind <;> simp only [Credential.redirected, hkind]

theorem stride_read : Stride d replies s s.read.2 := by
  unfold Session.read
  split
  · exact .reading List.suffix_rfl
  · next offset rest h =>
    refine .reading ?_
    rw [h]
    exact List.suffix_cons offset rest

/-- A program goes on until it rests, and what is left of it keeps the discipline. -/
theorem advance_course (i : Cache.CallerId) {p : Procedure Ending}
    (h : d.Keeps start (s.view replies) p) :
    ∃ t p', Strides d replies s t ∧ p.Leads p' ∧ p'.Rests ∧ d.Keeps start (t.view replies) p' ∧
      advance i p s = advance i p' t := by
  induction p generalizing s with
  | done outcome => exact ⟨s, _, .refl, .refl _, trivial, h, rfl⟩
  | ask q next ih =>
    have onward {s' : Session} (hstride : Stride d replies s s') (r : Bearer.Reply q)
        (hkeeps : d.Keeps start (s'.view replies) (next r))
        (hadvance : advance i (.ask q next) s = advance i (next r) s') :
        ∃ t p', Strides d replies s t ∧ (Procedure.ask q next).Leads p' ∧ p'.Rests ∧
          d.Keeps start (t.view replies) p' ∧
          advance i (.ask q next) s = advance i p' t := by
      obtain ⟨t, p', hstrides, hleads, hrests, hkeeps', hadvance'⟩ := ih r hkeeps
      exact ⟨t, p', hstrides.head hstride, .next r hleads, hrests, hkeeps',
        hadvance.trans hadvance'⟩
    have stay (hrests : q.Suspends) :
        ∃ t p', Strides d replies s t ∧ (Procedure.ask q next).Leads p' ∧ p'.Rests ∧
          d.Keeps start (t.view replies) p' ∧
          advance i (.ask q next) s = advance i p' t :=
      ⟨s, _, .refl, .refl _, hrests, h, rfl⟩
    cases q with
    | now =>
      have hview : s.read.2.view replies = s.view replies := by
        unfold Session.read
        split <;> rfl
      exact onward stride_read s.read.1 (hview ▸ h s.read.1) rfl
    | note n =>
      obtain ⟨hsees, hkeeps⟩ := h
      exact onward (.note n hsees) () hkeeps rfl
    | credential c =>
      have hkeeps : d.Keeps start (s.view replies) (next ((s.view replies).credential c)) := h
      rw [view_credential] at hkeeps
      exact onward (.reading List.suffix_rfl) _ hkeeps rfl
    | create credential =>
      obtain ⟨htoken, hkeeps⟩ := h
      rw [view_length, ← view_create] at hkeeps
      exact onward (.create credential htoken) s.held.length hkeeps rfl
    | redirect c source =>
      have hkeeps : d.Keeps start ((s.view replies).redirected c source) (next ()) := h
      rw [← view_redirect] at hkeeps
      exact onward (.redirect c source) () hkeeps (advance_redirect i c source next)
    | callbackFailed c failure =>
      obtain ⟨hpart, hkeeps⟩ := h
      exact onward (.warn c failure hpart) () (by rwa [view_stepCache]) rfl
    | send | read | rest | fetch | refresh | refreshIfExpired => exact stay trivial
    | cached | freshness | store | listen | operation | gate => exact h.elim

/-- What the clock may be read as: what it shows, or one of its offsets from that. -/
def Shows (s : Session) (reading : Double) : Prop :=
  reading = s.now ∨ ∃ offset ∈ s.offsets, reading = s.now + offset

theorem Shows.before {reading : Double} (h : t.Shows reading) (hnow : t.now = s.now)
    (hoffsets : t.offsets <:+ s.offsets) : s.Shows reading := by
  rcases h with rfl | ⟨offset, hmem, rfl⟩
  · exact .inl hnow
  · exact .inr ⟨offset, hoffsets.subset hmem, by rw [hnow]⟩

/-- A reading of the clock changes no more than the offsets of those to come. -/
theorem readFor_cases (s : Session) (cache : Cache.State) : ∃ t offsets, t = { s with offsets } ∧
    offsets <:+ s.offsets ∧ (s.readFor cache).2 = t ∧ s.Shows (s.readFor cache).1 := by
  have hsame : s = { s with offsets := s.offsets } := rfl
  unfold readFor
  split
  · split
    · exact ⟨s, s.offsets, hsame, List.suffix_rfl, rfl, .inl rfl⟩
    · unfold Session.read
      split
      · exact ⟨s, s.offsets, hsame, List.suffix_rfl, rfl, .inl rfl⟩
      · next offset rest h =>
        refine ⟨_, rest, rfl, ?_, rfl, .inr ⟨offset, ?_, rfl⟩⟩
        · rw [h]
          exact List.suffix_cons offset rest
        · rw [h]
          exact List.mem_cons_self
  · exact ⟨s, s.offsets, hsame, List.suffix_rfl, rfl, .inl rfl⟩

theorem advance_fetch_cases (s : Session) (i : Cache.CallerId) (c : CredentialId)
    (executor : Executor) (signal : Option Signal) (next : Result Token → Procedure Ending) :
    ∃ t offsets first second, t = { s with offsets } ∧ offsets <:+ s.offsets ∧
      (s.Shows first ∧ s.Shows second) ∧
      advance i (.ask (.fetch c executor signal) next) s =
        (t.block i (.token c signal fun r => next (givenToken r))).stepCache c executor
          (.fetch i (startOn executor) first second (t.reason? signal)) := by
  obtain ⟨t, offsets, ht, hsuffix, hread, hfirst⟩ := readFor_cases s (s.held? c).cache
  obtain ⟨u, offsets', hu, hsuffix', hread', hsecond⟩ := readFor_cases t (t.held? c).cache
  have hoffsets : t.offsets <:+ s.offsets := by rw [ht]; exact hsuffix
  refine ⟨u, offsets', (s.readFor (s.held? c).cache).1, (t.readFor (t.held? c).cache).1,
    by rw [hu, ht], hsuffix'.trans hoffsets, ⟨hfirst, hsecond.before (by rw [ht]) hoffsets⟩, ?_⟩
  rw [advance_fetch]
  dsimp only
  rw [hread, hread']

theorem advance_refreshIfExpired_cases (s : Session) (i : Cache.CallerId) (c : CredentialId)
    (signal : Option Signal) (next : Result Unit → Procedure Ending) :
    ∃ t offsets reading, t = { s with offsets } ∧ offsets <:+ s.offsets ∧
      advance i (.ask (.refreshIfExpired c signal) next) s =
        (t.block i (.token c signal fun r => next (r.map fun _ => ()))).stepCache c .direct
          (.refreshIfExpired i reading (t.reason? signal)) := by
  obtain ⟨t, offsets, ht, hsuffix, hread, -⟩ := readFor_cases s (s.held? c).cache
  refine ⟨t, offsets, (s.readFor (s.held? c).cache).1, ht, hsuffix, ?_⟩
  rw [advance_refreshIfExpired]
  dsimp only
  rw [hread]

end Session
end Bearer
