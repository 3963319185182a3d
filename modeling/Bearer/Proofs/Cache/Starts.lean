import Bearer.Proofs.Cache.Contents
import Bearer.Proofs.Cache.SingleFlight

namespace Bearer.Cache

def Effect.run? : Effect → Option RefreshId
  | .run k => some k
  | _ => none

/-- Events as they are where nobody forces a refresh or has an executor start one. -/
def Event.Plain : Event → Prop
  | .fetch _ how .. => how = .now
  | .refresh .. | .refreshIfExpired .. => False
  | _ => True

theorem runs_of_log {effects : List Effect} (h : ∀ effect ∈ effects, ∃ entry, effect = .log entry) :
    effects.filterMap Effect.run? = [] := by
  refine List.filterMap_eq_nil_iff.mpr fun effect heffect => ?_
  obtain ⟨entry, rfl⟩ := h effect heffect
  rfl

theorem runs_say (set : Settings) (entry : Log.Entry) :
    (set.say entry).filterMap Effect.run? = [] := by
  refine runs_of_log fun effect heffect => ?_
  unfold Settings.say at heffect
  split at heffect
  · exact ⟨entry, List.mem_singleton.mp heffect⟩
  · cases heffect

theorem runs_warn (set : Settings) (message : String) (failure : Thrown) :
    (set.warn message failure).filterMap Effect.run? = [] := by
  refine runs_of_log fun effect heffect => ?_
  unfold Settings.warn at heffect
  split at heffect
  · split at heffect
    · exact ⟨_, List.mem_singleton.mp heffect⟩
    · cases heffect
  · cases heffect

namespace Event
variable {e : Event}

theorem Plain.not_forced (h : e.Plain) : e.isForced = false := by
  cases e with
  | refresh caller aborted => exact h.elim
  | _ => rfl

theorem Plain.opens (h : e.Plain) {s : State} {how : Start} (ho : s.opens e = some how) :
    how = .now := by
  cases e with
  | fetch caller how' first second aborted =>
    obtain rfl : how' = .now := h
    simp only [State.opens] at ho
    split at ho
    · exact (Option.some.inj ho).symm
    · cases ho
  | refresh | refreshIfExpired => exact h.elim
  | _ => cases ho

end Event

namespace State
variable {set : Settings} {s : State} {e : Event} {k : RefreshId}

/-- The refresh that an event sets going. -/
def sets? (s : State) (e : Event) : Option RefreshId :=
  match e with
  | .launch k =>
    match s.stage? k with
    | some .held => some k
    | _ => none
  | e =>
    match s.opens e with
    | some .now => some s.refreshes.length
    | _ => none

theorem sets?_of_no_call (hc : e.caller? = none) (hlaunch : ∀ j, e ≠ .launch j) :
    s.sets? e = none := by
  have ho := opens_of_no_call s e hc
  cases e with
  | launch j => exact absurd rfl (hlaunch j)
  | _ => simp [sets?, ho]

theorem sets?_of_call {c : CallerId} (hc : e.caller? = some c) : s.sets? e =
    match s.opens e with
    | some .now => some s.refreshes.length
    | _ => none := by
  cases e with
  | launch j => cases hc
  | _ => rfl

theorem runs_finish (set : Settings) (outcome : Result Token) (j : RefreshId) :
    (s.finish set j outcome).2.filterMap Effect.run? = [] := by
  have hanswers (waiters : List CallerId) :
      (waiters.map (answerOf outcome)).filterMap Effect.run? = [] := by
    refine List.filterMap_eq_nil_iff.mpr fun effect heffect => ?_
    obtain ⟨caller, -, rfl⟩ := List.mem_map.mp heffect
    rfl
  cases outcome with
  | ok t => exact hanswers _
  | error failure =>
    show List.filterMap Effect.run? (set.warn _ failure ++ _) = []
    rw [List.filterMap_append, runs_warn, hanswers]
    rfl

theorem runs_notifyNext (token : Token) (left : List ListenerId) (j : RefreshId) :
    (s.notifyNext set j token left).2.filterMap Effect.run? = [] := by
  cases left with
  | nil => exact runs_finish set (.ok token) j
  | cons l rest => rfl

/-- A call runs the operation of the refresh that it starts. -/
theorem runs_call (set : Settings) {c : CallerId} (hc : e.caller? = some c) :
    (step set e s).2.filterMap Effect.run? = (s.sets? e).toList := by
  have heffects : (step set e s).2.filterMap Effect.run? =
      (s.opened set e).2.filterMap Effect.run? := by
    rw [step_call set s e c hc]
    cases s.reply? e with
    | none => rfl
    | some reply => simp [Effect.run?]
  rw [heffects, sets?_of_call hc]
  cases ho : s.opens e with
  | none => simp [opened, ho]
  | some how => cases how <;> simp [opened, ho, start, runs_say, Effect.run?]

theorem runs_process (set : Settings) (s : State) (j : RefreshId) :
    (s.process set j).2.filterMap Effect.run? = [] := by
  unfold process
  split
  · rw [List.filterMap_append, runs_say, runs_notifyNext]
    rfl
  · exact runs_finish set _ j
  · rfl

theorem runs_listenerDone (set : Settings) (s : State) (j : RefreshId)
    (failure : Option Thrown) : (s.listenerDone set j failure).2.filterMap Effect.run? = [] := by
  cases hj : s.stage? j with
  | none => simp [listenerDone, hj]
  | some stage =>
    cases stage with
    | notifying token l rest =>
      rw [listenerDone_eq set s j failure token l rest hj]
      split
      · next said hf =>
        have hsaid : said.filterMap Effect.run? = [] := by
          rcases Settings.complaint_cases hf with rfl | ⟨entry, rfl⟩ <;> rfl
        rw [List.filterMap_append, hsaid, runs_notifyNext]
        rfl
      · exact runs_finish set _ j
    | _ => simp [listenerDone, hj]

/-- The operations that are run after an event are those of the refresh that it sets going. -/
theorem runs_step (set : Settings) (s : State) (e : Event) :
    (step set e s).2.filterMap Effect.run? = (s.sets? e).toList := by
  cases hc : e.caller? with
  | some c => exact runs_call set hc
  | none =>
    have hnone (hlaunch : ∀ j, e ≠ .launch j) : s.sets? e = none := sets?_of_no_call hc hlaunch
    cases e with
    | launch j =>
      cases hj : s.stage? j with
      | none => simp [step, launch, sets?, hj]
      | some stage => cases stage <;> simp [step, launch, sets?, hj, Effect.run?]
    | settle j outcome =>
      simp only [step, settle]
      split <;> rfl
    | process j =>
      rw [hnone fun _ hlaunch => by cases hlaunch]
      exact runs_process set s j
    | listenerDone j failure =>
      rw [hnone fun _ hlaunch => by cases hlaunch]
      exact runs_listenerDone set s j failure
    | listen l => rfl
    | abort caller reason =>
      simp only [step, abort]
      split <;> rfl
    | callbackFailed failure => exact runs_warn set _ failure
    | _ => cases hc

/-- A refresh is set going once. -/
theorem working_of_sets (set : Settings) (h : s.sets? e = some k) :
    s.stage? k ≠ some .working ∧ (step set e s).1.stage? k = some .working := by
  cases hc : e.caller? with
  | some c =>
    rw [sets?_of_call hc] at h
    split at h
    · next ho =>
      cases h
      have hturn : Turn set s e _ _ := .started ho
      refine ⟨?_, hturn.stage⟩
      rw [(stage?_eq_none s _).mpr (Nat.le_refl _)]
      nofun
    · cases h
  | none =>
    cases e with
    | launch j =>
      simp only [sets?] at h
      split at h
      · next hj =>
        cases h
        have hturn : Turn set s (.launch k) k .working := .launched hj
        refine ⟨?_, hturn.stage⟩
        rw [hj]
        nofun
      · cases h
    | fetch | refresh | refreshIfExpired => cases hc
    | _ => cases h

/-- All refreshes have been set going, and one of them is open at most, the one in the slot. -/
structure Prompt (s : State) : Prop where
  openInSlot : s.OpenInSlot
  going : ∀ k, s.stage? k ≠ some .held

theorem prompt_initial (token : Option Token) : (initial token).Prompt :=
  ⟨fun k hk => by simp [isOpen, stage?, initial] at hk, fun k => by simp [stage?, initial]⟩

theorem Prompt.step (h : s.Prompt) (he : e.Plain) : (step set e s).1.Prompt := by
  refine ⟨openInSlot_step set s e he.not_forced h.openInSlot, fun k hk => ?_⟩
  rcases stage_step set s e k with hs | ⟨stage, hturn, hs⟩
  · exact h.going k (hs.symm.trans hk)
  · obtain rfl : stage = .held := Option.some.inj (hs.symm.trans hk)
    generalize hstage : Stage.held = stage at hturn
    cases hturn with
    | started ho =>
      rw [he.opens ho] at hstage
      cases hstage
    | @installed _ token =>
      have hrank := Stage.rank_telling token s.listeners
      rw [← hstage] at hrank
      cases hrank
    | @told _ _ token _ rest =>
      have hrank := Stage.rank_telling token rest
      rw [← hstage] at hrank
      cases hrank
    | launched | settled | failed | untold => cases hstage

/-- Every refresh that an event starts is set going by it. -/
theorem Prompt.runs (h : s.Prompt) (he : e.Plain) :
    (Cache.step set e s).1.refreshes.length =
      s.refreshes.length + ((Cache.step set e s).2.filterMap Effect.run?).length := by
  rw [(slot_step set s e).1, runs_step]
  congr 1
  cases hc : e.caller? with
  | some c =>
    rw [sets?_of_call hc]
    cases ho : s.opens e with
    | none => rfl
    | some how =>
      rw [he.opens ho]
      rfl
  | none =>
    rw [opens_of_no_call s e hc]
    cases e with
    | launch j =>
      have hnone : s.sets? (.launch j) = none := by
        rw [sets?]
        split
        · next hj => exact absurd hj (h.going j)
        · rfl
      rw [hnone]
      rfl
    | fetch | refresh | refreshIfExpired => cases hc
    | _ => rfl

/-- The cached token stays while there is a refresh in the slot, which has been there before or
has been started because a reading of the clock showed the token not to be fresh. -/
theorem Prompt.lapses (h : s.Prompt) (he : e.Plain)
    (hslot : (Cache.step set e s).1.slot ≠ none) :
    (Cache.step set e s).1.token = s.token ∧ (s.slot ≠ none ∨
      ∃ caller first second aborted, e = .fetch caller .now first second aborted ∧
        (s.freshness first ≠ .fresh ∨ s.freshness second ≠ .fresh)) := by
  rw [(slot_step set s e).2] at hslot
  constructor
  · rw [token_step]
    cases hi : s.installs? e with
    | none => rfl
    | some t =>
      -- What is installed was in the slot, and is taken out of it.
      obtain ⟨k, rfl, hk⟩ := installs?_eq_some hi
      have hopen : s.isOpen k = true := by simp [isOpen, hk, Stage.isOpen]
      have htakes : s.takes? (.process k) = some k := by simp [takes?, hk]
      have hcleared : (s.clear k).slot = none := by
        rw [clear, if_pos (h.openInSlot k hopen)]
      have hopens : s.opens (.process k) = none := rfl
      simp only [hopens, htakes] at hslot
      exact absurd hcleared hslot
  · cases ho : s.opens e with
    | none =>
      refine .inl fun hnone => hslot ?_
      rw [ho]
      cases ht : s.takes? e with
      | none => exact hnone
      | some k => simp [clear, hnone]
    | some how =>
      cases e with
      | fetch caller how' first second aborted =>
        obtain rfl : how' = .now := he
        refine .inr ⟨caller, first, second, aborted, rfl, ?_⟩
        simp only [State.opens] at ho
        split at ho
        · next hwhen =>
          refine hwhen.2.imp_right fun hexpired hfresh => ?_
          rw [hexpired] at hfresh
          cases hfresh
        · cases ho
      | refresh | refreshIfExpired => exact he.elim
      | _ => cases ho

/-- All refreshes but one at most have settled. -/
theorem Prompt.settled (h : s.Prompt) (hlatest : s.SlotLatest) :
    s.refreshes.length ≤ s.refreshes.countP (fun r => r.stage.isSettled) + 1 := by
  rcases List.eq_nil_or_concat s.refreshes with hnil | ⟨earlier, latest, heq⟩
  · rw [hnil]
    exact Nat.zero_le _
  · rw [List.concat_eq_append] at heq
    have hsettled : ∀ r ∈ earlier, r.stage.isSettled = true := by
      intro r hr
      obtain ⟨k, hk, rfl⟩ := List.mem_iff_getElem.mp hr
      have hstage : s.stage? k = some earlier[k].stage := by
        rw [stage?, heq, List.getElem?_append_left hk, List.getElem?_eq_getElem hk]
        rfl
      have hclosed : s.isOpen k ≠ true := by
        intro hopen
        obtain ⟨hlast, -⟩ := (hlatest k).mp (h.openInSlot k hopen)
        rw [heq, List.length_append] at hlast
        exact Nat.ne_of_lt hk (Nat.succ.inj hlast)
      rw [isOpen, hstage] at hclosed
      revert hclosed
      cases earlier[k].stage <;> simp [Stage.isSettled, Stage.isOpen]
    rw [heq, List.countP_append, List.countP_eq_length.mpr hsettled, List.length_append]
    exact Nat.add_le_add_right (Nat.le_add_right _ _) 1

end State
end Bearer.Cache
