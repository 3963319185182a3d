import Bearer.Proofs.Cache.Notification
import Bearer.Proofs.Session.Steps

namespace Bearer

namespace Cache.State
variable {set : Settings} {s : State} {es fs : List Event} {p : Nat} {k : RefreshId}

/-- What has been processed stays so, whatever else happens. -/
theorem Processed.append {outcome : Result Token} (h : s.Processed set es p k outcome)
    (fs : List Event) : s.Processed set (es ++ fs) p k outcome := by
  have hp := h.lt_length
  refine ⟨by rw [List.getElem?_append_left hp, h.1], ?_⟩
  rw [moment, List.take_append_of_le_length (Nat.le_of_lt hp)]
  exact h.2

/-- A listener is called for a refresh that has brought a token. -/
theorem processed_of_notify {token : Option Token} {e : Event} {l : ListenerId}
    (h : .notify k l ∈ (step set e ((initial token).after set es)).2) :
    ∃ p t, (initial token).Processed set (es ++ [e]) p k (.ok t) := by
  have hlast : (es ++ [e])[es.length]? = some e := by simp
  have hcalled : l ∈ (initial token).called set (es ++ [e]) (es.length + 1) k := by
    rw [called_succ set _ _ _ _ hlast, moment, List.take_left]
    exact List.mem_append_right _ (List.mem_filterMap.mpr ⟨_, h, by simp [Effect.called?]⟩)
  obtain ⟨p, -, t, hp⟩ := processed_of_called (List.ne_nil_of_mem hcalled)
  exact ⟨p, t, hp⟩

theorem no_notify_initial (token : Option Token) (e : Event) (l : ListenerId) :
    .notify k l ∉ (step set e (initial token)).2 := by
  intro h
  have h' : .notify k l ∈ (step set e ((initial token).after set [])).2 := h
  obtain ⟨p, t, hp⟩ := processed_of_notify h'
  obtain rfl : p = 0 := by simpa using hp.lt_length
  cases hp.2

end Cache.State

namespace Session

open Cache (State)

/-- The refresh has brought a token. -/
def Held.Succeeded (h : Held) (k : Cache.RefreshId) : Prop :=
  ∃ es p t, h.cache = (State.initial h.credential.token).after ⟨h.credential.logging⟩ es ∧
    (State.initial h.credential.token).Processed ⟨h.credential.logging⟩ es p k (.ok t)

namespace Held.Succeeded
variable {h h' : Held} {k : Cache.RefreshId}

theorem step (hk : h.Succeeded k) (e : Cache.Event) :
    ({ h with cache := (Cache.step ⟨h.credential.logging⟩ e h.cache).1 } : Held).Succeeded k := by
  obtain ⟨es, p, t, hcache, hp⟩ := hk
  refine ⟨es ++ [e], p, t, ?_, hp.append [e]⟩
  rw [State.after_append, ← hcache]
  rfl

theorem reshape (hk : h.Succeeded k) (hcache : h'.cache = h.cache)
    (hsetup : h'.credential.toSetup = h.credential.toSetup) : h'.Succeeded k := by
  rw [Succeeded, hcache, hsetup]
  exact hk

theorem not_default : ¬ (default : Held).Succeeded k := by
  rintro ⟨es, p, t, hcache, hp⟩
  have hprocessed := hp.since hp.lt_length
  rw [State.moment_length, ← hcache] at hprocessed
  cases hprocessed

end Held.Succeeded

/-- The work may stand before that of all threads. -/
def Job.Inward (s : Session) : Job → Prop
  | .effect c _ (.notify k _) => (s.held? c).Succeeded k
  | .effect .. => True
  | .launch .. => True
  | _ => False

/-- The work that belongs to what is being done is that of caches, and of callers who kept it. -/
structure Inward (s : Session) : Prop where
  inner : ∀ job ∈ s.inner, job.Inward s
  queued : ∀ job ∈ s.agenda ++ s.deferred ++ s.timers.map Prod.snd, job.Queues
  kept : ∀ job ∈ s.kept, ∃ c k, job = .launch c k

variable {P : Query → Prop} {i : Option Cache.CallerId} {s s' : Session}

theorem Job.Inward.mono {job : Job} (h : job.Inward s)
    (hheld : ∀ c k, (s.held? c).Succeeded k → (s'.held? c).Succeeded k) : job.Inward s' := by
  unfold Job.Inward at h ⊢
  split at h
  · exact hheld _ _ h
  all_goals trivial

/-- What is not held is as good as new. -/
theorem held?_eq_default {c : CredentialId} (hc : ¬ c < s.held.length) : s.held? c = default := by
  rw [held?, List.getD_eq_getElem?_getD, List.getElem?_eq_none (Nat.le_of_not_lt hc),
    Option.getD_none]

theorem Inward.cache (h : s.Inward) (hs : s.Sound P i) (c : CredentialId) (executor : Executor)
    (e : Cache.Event) : (s.stepCache c executor e).Inward := by
  refine ⟨fun job hjob => ?_, h.queued, h.kept⟩
  rcases List.mem_append.mp hjob with hjob | hjob
  · obtain ⟨effect, heffect, rfl⟩ := List.mem_map.mp hjob
    cases effect with
    | notify k l =>
      show ((s.stepCache c executor e).held? c).Succeeded k
      by_cases hc : c < s.held.length
      · obtain ⟨es, hes⟩ := hs.history c
        rw [hes] at heffect
        obtain ⟨p, t, hp⟩ := State.processed_of_notify heffect
        rw [held?_stepCache, if_pos ⟨rfl, hc⟩]
        refine ⟨es ++ [e], p, t, ?_, hp⟩
        rw [State.after_append, ← hes]
        rfl
      · rw [held?_eq_default hc] at heffect
        exact absurd heffect (State.no_notify_initial none e l)
    | _ => trivial
  · refine (h.inner job hjob).mono fun d k hk => ?_
    rw [held?_stepCache]
    split
    · exact hk.step e
    · exact hk

theorem Inward.create (h : s.Inward) (credential : Credential) :
    ({ s with held := s.held ++ [{ credential, cache := { token := credential.token } }] } :
      Session).Inward := by
  refine ⟨fun job hjob => (h.inner job hjob).mono fun d k hk => ?_, h.queued, h.kept⟩
  rw [held?_create]
  split
  · next hd =>
    rw [held?_eq_default (hd ▸ Nat.lt_irrefl _)] at hk
    exact absurd hk Held.Succeeded.not_default
  · exact hk

/-- Work queues but for that of caches. -/
theorem Inward.put (h : s.Inward) {job : Job} (hput : s.Puts job s') (hqueues : job.Queues) :
    s'.Inward := by
  have hqueued (queue : List Job) (hmem : ∀ j ∈ queue, j = job ∨
      j ∈ s.agenda ++ s.deferred ++ s.timers.map Prod.snd) : ∀ j ∈ queue, j.Queues := by
    intro j hj
    rcases hmem j hj with rfl | hj
    · exact hqueues
    · exact h.queued j hj
  cases hput with
  | next =>
    refine ⟨h.inner, hqueued _ fun j hj => ?_, h.kept⟩
    simp only [doNext, List.mem_append, List.mem_singleton] at hj ⊢
    grind
  | later =>
    refine ⟨h.inner, hqueued _ fun j hj => ?_, h.kept⟩
    simp only [doLater, List.mem_append, List.mem_singleton] at hj ⊢
    grind
  | after ms =>
    refine ⟨h.inner, hqueued _ fun j hj => ?_, h.kept⟩
    simp only [doAfter, List.map_append, List.mem_append, List.map_cons, List.map_nil,
      List.mem_singleton] at hj ⊢
    grind
  | kept hlaunch =>
    refine ⟨h.inner, h.queued, fun j hj => ?_⟩
    rcases List.mem_append.mp hj with hj | hj
    · exact h.kept j hj
    · obtain rfl := List.mem_singleton.mp hj
      exact hlaunch

theorem Inward.take (h : s.Inward) {job : Job} (htake : s.Takes job s') : s'.Inward := by
  cases htake with
  | inner hinner =>
    exact ⟨fun j hj => h.inner j (hinner ▸ List.mem_cons_of_mem _ hj), h.queued, h.kept⟩
  | agenda _ hagenda =>
    refine ⟨h.inner, fun j hj => h.queued j ?_, h.kept⟩
    simp only [hagenda, List.mem_append, List.mem_cons] at hj ⊢
    grind
  | deferred hdeferred =>
    refine ⟨h.inner, fun j hj => h.queued j ?_, h.kept⟩
    simp only [hdeferred, List.mem_append, List.mem_cons] at hj ⊢
    grind
  | timer _ hrest =>
    refine ⟨h.inner, fun j hj => h.queued j ?_, h.kept⟩
    have hsubset := (hrest.map Prod.snd).subset
    simp only [List.mem_append] at hj ⊢
    exact hj.imp_right fun hj => hsubset hj

/-- No act brings other work before that of threads. -/
theorem Inward.act (h : s.Inward) (hs : s.Sound P i) (hact : Act P i s s') : s'.Inward := by
  cases hact with
  | put job _ _ _ hput hqueues => exact h.put hput hqueues
  | take job _ htake => exact h.take htake
  | reclaim =>
    refine ⟨fun j hj => ?_, h.queued, nofun⟩
    rcases List.mem_append.mp hj with hj | hj
    · obtain ⟨c, k, rfl⟩ := h.kept j hj
      trivial
    · exact h.inner j hj
  | cache c executor e _ _ => exact h.cache hs c executor e
  | create credential => exact h.create credential
  | reshape c f hf =>
    refine ⟨fun job hjob => (h.inner job hjob).mono fun d k hk => ?_, h.queued, h.kept⟩
    rw [held?_modifyHeld]
    split
    · exact hk.reshape (hf _).1 (Credential.toSetup_of_lasting (hf _).2)
    · exact hk
  | _ => exact ⟨h.inner, h.queued, h.kept⟩

theorem Inward.acts (h : s.Inward) (hs : s.Sound P i) (hacts : Acts P i s s') : s'.Inward := by
  induction hacts with
  | refl => exact h
  | tail hbefore hact ih => exact ih.act (hs.acts hbefore) hact

theorem Inward.steps (h : s.Inward) (hs : s.Sound (fun _ => True) none)
    (hsteps : Steps (fun _ => True) s s') : s'.Inward := by
  induction hsteps with
  | refl => exact h
  | tail hbefore hstep ih => exact ih.acts (hs.steps hbefore) (hstep.acts (hs.steps hbefore))

theorem inward_session (w : World) (wraps : Bool) : (w.session wraps).Inward where
  inner _ hjob := absurd hjob List.not_mem_nil
  queued _ hjob := absurd hjob List.not_mem_nil
  kept _ hjob := absurd hjob List.not_mem_nil

/-- A thread goes on when nothing is left that belongs to what is being done. -/
theorem Inward.inner_eq_nil (h : s.Inward) {id : Cache.CallerId} {p : Procedure Ending}
    (htake : s.takeJob? = some (.resume id p, s')) : s.inner = [] := by
  cases hinner : s.inner with
  | nil => rfl
  | cons job rest =>
    have hjob := h.inner job (hinner ▸ List.mem_cons_self)
    cases (takeJob?_of_inner hinner).symm.trans htake
    exact hjob.elim

/-- A listener is called for a refresh that has brought a token. -/
theorem Inward.succeeded (h : s.Inward) {c : CredentialId} {executor : Executor}
    {k : Cache.RefreshId} {l : Cache.ListenerId}
    (htake : s.takeJob? = some (.effect c executor (.notify k l), s')) :
    (s.held? c).Succeeded k := by
  have hqueued : .effect c executor (.notify k l) ∉
      s.agenda ++ s.deferred ++ s.timers.map Prod.snd := fun hmem => by
    have hfalse : (Job.effect c executor (.notify k l)).Queues := h.queued _ hmem
    exact hfalse
  cases takes_of_takeJob htake with
  | inner hinner => exact h.inner _ (hinner ▸ List.mem_cons_self)
  | agenda _ hagenda => exact absurd (by simp [hagenda]) hqueued
  | deferred hdeferred => exact absurd (by simp [hdeferred]) hqueued
  | timer hmem _ => exact absurd (List.mem_append_right _ hmem) hqueued

end Session
end Bearer
