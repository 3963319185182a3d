import Bearer.Proofs.Session.Whereabouts

namespace Bearer

namespace Session

/-- The best of some timers is the one that was best so far, or better and the first of its
time. -/
theorem foldl_earliest {timers : List (Double × Job)} {best t : Double × Job}
    (h : timers.foldl (fun best t => match best with
      | none => some t
      | some b => if t.1.lt b.1 then some t else some b) (some best) = some t) :
    t = best ∨ ∃ before after, timers = before ++ t :: after ∧ t.1.lt best.1 = true ∧
      ∀ u ∈ before, u.1 ≠ t.1 := by
  induction timers generalizing best with
  | nil => exact .inl (Option.some.inj h).symm
  | cons u timers ih =>
    rw [List.foldl_cons] at h
    dsimp only at h
    by_cases hu : u.1.lt best.1 = true
    · rw [if_pos hu] at h
      rcases ih h with rfl | ⟨before, after, rfl, ht, hbefore⟩
      · exact .inr ⟨[], timers, rfl, hu, nofun⟩
      · refine .inr ⟨u :: before, after, rfl, Double.lt_trans ht hu, ?_⟩
        refine List.forall_mem_cons.mpr ⟨fun heq => ?_, hbefore⟩
        rw [heq, Double.lt_irrefl] at ht
        cases ht
    · rw [if_neg hu] at h
      rcases ih h with rfl | ⟨before, after, rfl, ht, hbefore⟩
      · exact .inl rfl
      · refine .inr ⟨u :: before, after, rfl, ht, ?_⟩
        exact List.forall_mem_cons.mpr ⟨fun heq => hu (heq ▸ ht), hbefore⟩

theorem dropFirst_append {before after : List (Double × Job)} {t : Double × Job}
    (h : ∀ u ∈ before, u.1 ≠ t.1) : dropFirst t.1 (before ++ t :: after) = before ++ after := by
  induction before with
  | nil => simp [dropFirst]
  | cons u before ih =>
    rw [List.cons_append, dropFirst, if_neg (h u List.mem_cons_self),
      ih fun v hv => h v (List.mem_cons_of_mem u hv), List.cons_append]

/-- The earliest timer is the one that goes off. -/
theorem earliest_perm {timers : List (Double × Job)} {t : Double × Job}
    (h : earliest? timers = some t) : timers.Perm (t :: dropFirst t.1 timers) := by
  cases timers with
  | nil => cases h
  | cons first timers =>
    rcases foldl_earliest h with rfl | ⟨before, after, rfl, ht, hbefore⟩
    · rw [dropFirst, if_pos rfl]
    · have hfirst : first.1 ≠ t.1 := by
        intro heq
        rw [heq, Double.lt_irrefl] at ht
        cases ht
      have hdrop : dropFirst t.1 (first :: (before ++ t :: after)) = first :: (before ++ after) :=
        dropFirst_append (List.forall_mem_cons.mpr ⟨hfirst, hbefore⟩)
      have hmiddle : (first :: before ++ t :: after).Perm (t :: (first :: before ++ after)) :=
        List.perm_middle
      rw [hdrop]
      exact hmiddle

variable {P : Query → Prop} {s s' : Session}

theorem takeJob?_perm {job : Job} (h : s.takeJob? = some (job, s')) :
    s.jobs.Perm (job :: s'.jobs) := by
  unfold takeJob? at h
  split at h
  · next hinner =>
    cases h
    simp only [jobs, hinner, List.cons_append]
    exact .refl _
  · next hinner hagenda =>
    cases h
    simp only [jobs, hinner, hagenda, List.cons_append, List.nil_append]
    exact .refl _
  · next hinner hagenda hdeferred =>
    cases h
    simp only [jobs, hinner, hagenda, hdeferred, List.cons_append, List.nil_append]
    exact .refl _
  · next hinner hagenda hdeferred =>
    obtain ⟨t, ht, heq⟩ := Option.map_eq_some_iff.mp h
    cases heq
    simp only [jobs, hinner, hagenda, hdeferred, List.nil_append]
    have htimers := (earliest_perm ht).map Prod.snd
    exact (htimers.append_left s.kept).trans List.perm_middle

theorem takeJob?_of_inner {job : Job} {rest : List Job} (h : s.inner = job :: rest) :
    s.takeJob? = some (job, { s with inner := rest }) := by
  unfold takeJob?
  simp only [h]

theorem takeJob?_doNext {job : Job} (hinner : s.inner = []) (hagenda : s.agenda = []) :
    (s.doNext job).takeJob? = some (job, s) := by
  obtain ⟨_⟩ := s
  cases hinner
  cases hagenda
  rfl

theorem takeJob?_held {job : Job} (h : s.takeJob? = some (job, s')) : s'.held = s.held := by
  cases takes_of_takeJob h <;> rfl

theorem takeJob?_store {job : Job} (h : s.takeJob? = some (job, s')) : s'.store = s.store := by
  cases takes_of_takeJob h <;> rfl

theorem takeJob?_held? {job : Job} (h : s.takeJob? = some (job, s')) (c : CredentialId) :
    s'.held? c = s.held? c := by
  rw [held?, held?, takeJob?_held h]

/-- One piece of work, or one thing that is done from outside. -/
inductive Step (P : Query → Prop) (s : Session) : Session → Prop
  | work {job : Job} {s' : Session} (h : s.takeJob? = some (job, s')) : Step P s (s'.perform job)
  /-- Somebody starts a program that asks nothing but this. -/
  | start {p : Procedure Ending} (hp : p.Asks P) : Step P s (s.spawn p)
  | signal (aborted : List (Signal × Thrown)) : Step P s { s with aborted }
  | giveUp (c : CredentialId) (id : Cache.CallerId) (reason : Thrown) (hborn : id < s.born) :
      Step P s (s.stepCache c .direct (.abort id reason))
  | endOperation (number : Nat) (outcome : Result Offer) :
      Step P s (s.endOperation number outcome)
  | release (gate : String) : Step P s (s.release gate)
  | reclaim : Step P s ({ s with kept := [] }.doFirst s.kept)
  /-- The world around changes, but for the store. -/
  | world (w : World) (h : w.store = s.store) : Step P s (w.around s)

abbrev Steps (P : Query → Prop) : Session → Session → Prop := Relation.ReflTransGen (Step P)

/-- The session does a piece of work of this kind next. -/
def Does (kind : Job → Prop) (s s' : Session) : Prop :=
  ∃ job t, s.takeJob? = some (job, t) ∧ kind job ∧ s' = t.perform job

/-- The call that a thread makes comes back with this. -/
def Settles (i : Cache.CallerId) (name : String) (outcome : Result Answer) (s s' : Session) :
    Prop :=
  ∃ p t, s.takeJob? = some (.resume i p, t) ∧ s' = t.perform (.resume i p) ∧
    s'.trace = .answered name outcome :: t.trace

/-- A step that leaves the entry of a user alone unless it is work of this kind. -/
def OwnedStep (kind : Job → Prop) (user : String) (s s' : Session) : Prop :=
  Step (fun _ => True) s s' ∧ (Does kind s s' ∨ s'.store.find? user = s.store.find? user)

/-- A run in which nothing but work of this kind writes the entry of a user. -/
abbrev OwnedRun (kind : Job → Prop) (user : String) : Session → Session → Prop :=
  Relation.ReflTransGen (OwnedStep kind user)

theorem OwnedRun.steps {kind : Job → Prop} {user : String} (h : OwnedRun kind user s s') :
    Steps (fun _ => True) s s' := by
  induction h with
  | refl => exact .refl
  | tail _ hstep ih => exact ih.tail hstep.1

theorem steps_work (n : Nat) (s : Session) : Steps P s (s.work n) := by
  induction n generalizing s with
  | zero => exact .refl
  | succ n ih =>
    unfold work
    split
    · exact .refl
    · next job t htake => exact .head (.work htake) (ih _)

theorem step_work (h : s.takeJob?.isSome = true) : Step P s (s.work 1) := by
  obtain ⟨⟨job, t⟩, htake⟩ := Option.isSome_iff_exists.mp h
  rw [work, htake]
  exact .work htake

/-- Whether the next pieces of work leave the entry of a user alone, but for those of a kind. -/
def sparesEntry (kind : Job → Bool) (user : String) : Nat → Session → Bool
  | 0, _ => true
  | n + 1, s =>
    match s.takeJob? with
    | none => true
    | some (job, t) =>
      (kind job || decide ((t.perform job).store.find? user = s.store.find? user)) &&
        sparesEntry kind user n (t.perform job)

/-- Whether a run is owned can be computed. -/
theorem ownedRun_work {kind : Job → Prop} {isKind : Job → Bool} {user : String} {n : Nat}
    (hkind : ∀ job, isKind job = true → kind job) (h : sparesEntry isKind user n s = true) :
    OwnedRun kind user s (s.work n) := by
  induction n generalizing s with
  | zero => exact .refl
  | succ n ih =>
    unfold work
    unfold sparesEntry at h
    split
    · exact .refl
    · next job t htake =>
      simp only [htake, Bool.and_eq_true, Bool.or_eq_true, decide_eq_true_eq] at h
      obtain ⟨hspares, hrest⟩ := h
      refine .head ⟨.work htake, hspares.imp_left fun hjob => ?_⟩ (ih hrest)
      exact ⟨job, t, htake, hkind job hjob, rfl⟩

/-- A step does the next piece of work, or comes to acts. -/
theorem Step.work_or_acts (hs : s.Sound P none) (h : Step P s s') :
    (∃ job t, s.takeJob? = some (job, t) ∧ s' = t.perform job) ∨ Acts P none s s' := by
  cases h with
  | work h => exact .inl ⟨_, _, h, rfl⟩
  | start hp => exact .inr (spawn_acts (by simp) hp)
  | signal aborted => exact .inr (.single (.aside s.offsets s.replies s.started aborted))
  | giveUp c id reason hborn =>
    refine .inr (.single (.cache c .direct (.abort id reason) (fun caller hcaller => ?_) nofun))
    cases hcaller
    exact hborn
  | endOperation number outcome => exact .inr (endOperation_acts hs number outcome)
  | release gate => exact .inr (release_acts hs gate)
  | reclaim => exact .inr (.single .reclaim)
  | world w h => exact .inr (.single (.world w))

theorem native_anything : Native fun _ => True where
  requests _ := Procedure.Asks.anything _
  listeners _ _ _ := Procedure.Asks.anything _

/-- If nothing is said of what is asked, all work comes to acts. -/
theorem Step.acts (hs : s.Sound (fun _ => True) none) (h : Step (fun _ => True) s s') :
    Acts (fun _ => True) none s s' := by
  rcases h.work_or_acts hs with ⟨job, t, htake, rfl⟩ | hacts
  · have htakes := takes_of_takeJob htake
    obtain ⟨hborn, hasks⟩ := hs.jobs job htakes.mem
    exact .head (.take job nofun htakes)
      (perform_acts native_anything (hs.take htakes) (hasks nofun) (htakes.born ▸ hborn) nofun)
  · exact hacts

theorem Sound.steps (hs : s.Sound (fun _ => True) none) (h : Steps (fun _ => True) s s') :
    s'.Sound (fun _ => True) none := by
  induction h with
  | refl => exact hs
  | tail _ hstep ih => exact ih.acts (hstep.acts ih)

/-- A credential stays what it was, whatever is done. -/
theorem Steps.lasting (h : Steps (fun _ => True) s s') (hs : s.Sound (fun _ => True) none)
    {c : CredentialId} (hc : c < s.held.length) :
    c < s'.held.length ∧ (s'.held? c).credential.lasting = (s.held? c).credential.lasting := by
  induction h with
  | refl => exact ⟨hc, rfl⟩
  | tail hsteps hstep ih =>
    obtain ⟨hc', hlasting⟩ := (hstep.acts (hs.steps hsteps)).lasting ih.1
    exact ⟨hc', hlasting.trans ih.2⟩

end Session
end Bearer
