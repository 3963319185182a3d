import Bearer.Proofs.Cache.Runs

namespace Bearer.Cache

namespace State
variable (set : Settings)

/-- The refresh whose outcome an event processes. -/
def takes? (s : State) : Event → Option RefreshId
  | .process k =>
    match s.stage? k with
    | some (.settled _) => some k
    | _ => none
  | _ => none

/-- The latest refresh, if its outcome has not been processed yet. -/
def inFlight? (s : State) : Option RefreshId :=
  let latest := s.refreshes.length - 1
  if s.isOpen latest then some latest else none

theorem takes?_eq_some {s : State} {e : Event} {k : RefreshId} (h : s.takes? e = some k) :
    e = .process k ∧ ∃ outcome, s.stage? k = some (.settled outcome) := by
  cases e with
  | process j =>
    simp only [takes?] at h
    split at h
    · next outcome hk =>
      cases h
      exact ⟨rfl, outcome, hk⟩
    · cases h
  | _ => cases h

theorem takes?_call (s : State) (e : Event) (c : CallerId) (hc : e.caller? = some c) :
    s.takes? e = none := by
  cases e <;> first | rfl | cases hc

@[simp] theorem length_joinSlot (s : State) (c : CallerId) :
    (s.joinSlot c).refreshes.length = s.refreshes.length := by
  unfold joinSlot
  split <;> simp [join]

@[simp] theorem slot_joinSlot (s : State) (c : CallerId) : (s.joinSlot c).slot = s.slot := by
  unfold joinSlot
  split <;> rfl

@[simp] theorem length_finish (s : State) (k : RefreshId) (outcome : Result Token) :
    (s.finish set k outcome).1.refreshes.length = s.refreshes.length := by
  simp [finish]

@[simp] theorem slot_finish (s : State) (k : RefreshId) (outcome : Result Token) :
    (s.finish set k outcome).1.slot = s.slot := rfl

@[simp] theorem length_notifyNext (s : State) (k : RefreshId) (token : Token)
    (left : List ListenerId) :
    (s.notifyNext set k token left).1.refreshes.length = s.refreshes.length := by
  cases left <;> simp [notifyNext, setStage]

@[simp] theorem slot_notifyNext (s : State) (k : RefreshId) (token : Token)
    (left : List ListenerId) : (s.notifyNext set k token left).1.slot = s.slot := by
  cases left <;> rfl

@[simp] theorem length_clear (s : State) (k : RefreshId) :
    (s.clear k).refreshes.length = s.refreshes.length := by
  unfold clear
  split <;> rfl

theorem slot_clear (s : State) (k j : RefreshId) :
    (s.clear k).slot = some j ↔ s.slot = some j ∧ j ≠ k := by
  by_cases h : s.slot = some k
  · simp [clear, h, eq_comm]
  · simp only [clear, h, ↓reduceIte, iff_self_and]
    rintro hj rfl
    exact h hj

@[simp] theorem slot_clear_token (s : State) (token : Option Token) (k : RefreshId) :
    (({ s with token } : State).clear k).slot = (s.clear k).slot := by
  by_cases h : s.slot = some k <;> simp [clear, h]

theorem slot_step (s : State) (e : Event) :
    (step set e s).1.refreshes.length =
      s.refreshes.length + (if (s.opens e).isSome then 1 else 0) ∧
    (step set e s).1.slot = match s.opens e with
      | some _ => some s.refreshes.length
      | none => match s.takes? e with
        | some k => (s.clear k).slot
        | none => s.slot := by
  cases hc : e.caller? with
  | some c =>
    rw [step_call set s e c hc, takes?_call s e c hc]
    cases s.reply? e <;> cases ho : s.opens e <;> simp [opened, ho]
  | none =>
    rw [opens_of_no_call s e hc]
    cases e with
    | launch k =>
      simp only [step, launch, takes?]
      split <;> simp [setStage]
    | settle k outcome =>
      simp only [step, settle, takes?]
      split <;> simp [setStage]
    | process k =>
      cases hk : s.stage? k with
      | none => simp [step, process, takes?, hk]
      | some stage =>
        cases stage with
        | settled outcome => cases outcome <;> simp [step, process, takes?, hk]
        | _ => simp [step, process, takes?, hk]
    | listenerDone k failure =>
      cases hk : s.stage? k with
      | none => simp [step, listenerDone, takes?, hk]
      | some stage =>
        cases stage with
        | notifying token l rest =>
          simp only [step, listenerDone_eq set s k failure token l rest hk, takes?]
          split <;> simp
        | _ => simp [step, listenerDone, takes?, hk]
    | listen l => simp [step, listen, takes?]
    | abort caller reason =>
      simp only [step, abort, takes?]
      split <;> simp [leave]
    | callbackFailed failure => simp [step, callbackFailed, takes?]
    | _ => cases hc

/-- A refresh that is started is a new one, and takes the slot. -/
theorem step_opens {s : State} {e : Event} {how : Start} (ho : s.opens e = some how) :
    (step set e s).1.refreshes.length = s.refreshes.length + 1 ∧
      (step set e s).1.slot = some s.refreshes.length ∧
      (step set e s).1.stage? s.refreshes.length = some how.stage := by
  obtain ⟨hlength, hslot⟩ := slot_step set s e
  have hturn : Turn set s e _ _ := .started ho
  exact ⟨by simp [hlength, ho], by simp [hslot, ho], hturn.stage⟩

theorem step_opens_not {s : State} {e : Event} {c : CallerId} (hc : e.caller? = some c)
    (ho : s.opens e = none) :
    (step set e s).1.refreshes.length = s.refreshes.length ∧ (step set e s).1.slot = s.slot := by
  obtain ⟨hlength, hslot⟩ := slot_step set s e
  exact ⟨by simp [hlength, ho], by simp [hslot, ho, takes?_call s e c hc]⟩

/-- A refresh becomes open by its start, and is open until its outcome is processed. -/
theorem isOpen_step (s : State) (e : Event) (k : RefreshId) :
    (step set e s).1.isOpen k = true ↔
      (k = s.refreshes.length ∧ (s.opens e).isSome) ∨
        (s.isOpen k = true ∧ s.takes? e ≠ some k) := by
  by_cases ht : s.takes? e = some k
  · obtain ⟨rfl, outcome, hk⟩ := takes?_eq_some ht
    have hp : (step set (.process k) s).1.isOpen k = false := by
      cases outcome with
      | ok token =>
        have hturn : Turn set s (.process k) k _ := .installed hk
        rw [isOpen, hturn.stage]
        cases s.listeners <;> rfl
      | error failure =>
        have hturn : Turn set s (.process k) k _ := .failed hk
        rw [isOpen, hturn.stage]
        rfl
    simp [hp, ht, opens]
  · -- Any other turn but the start leaves the refresh as open as it was.
    simp only [ne_eq, ht, not_false_eq_true, and_true]
    have hl : s.stage? s.refreshes.length = none := (stage?_eq_none s _).mpr (Nat.le_refl _)
    rcases stage_step set s e k with hs | ⟨stage, hturn, hs⟩
    · have hn : ¬(k = s.refreshes.length ∧ (s.opens e).isSome) := by
        rintro ⟨rfl, ho⟩
        obtain ⟨how, ho⟩ := Option.isSome_iff_exists.mp ho
        have hturn : Turn set s e _ _ := .started ho
        simp [hl, hturn.stage] at hs
      simp [hn, isOpen, hs]
    · cases hturn with
      | @started _ how ho => cases how <;> simp [isOpen, hs, ho, Start.stage, Stage.isOpen]
      | launched hk | settled hk => simp [isOpen, hs, hk, Stage.isOpen]
      | failed hk | installed hk => simp [takes?, hk] at ht
      | @told _ _ token l rest _ hk hf =>
        have hne : k ≠ s.refreshes.length := by
          rintro rfl
          simp [hl] at hk
        cases rest <;> simp [isOpen, hs, hk, hne, Stage.telling, Stage.isOpen]
      | untold hk hf =>
        have hne : k ≠ s.refreshes.length := by
          rintro rfl
          simp [hl] at hk
        simp [isOpen, hs, hk, hne, Stage.isOpen]

/-- The slot holds the latest refresh if that is open, and nothing otherwise. -/
def SlotLatest (s : State) : Prop :=
  ∀ k, s.slot = some k ↔ k + 1 = s.refreshes.length ∧ s.isOpen k = true

theorem slotLatest_initial (token : Option Token) : (initial token).SlotLatest := by
  intro k
  simp [initial]

theorem slotLatest_step (s : State) (e : Event) (h : s.SlotLatest) :
    (step set e s).1.SlotLatest := by
  intro k
  rw [(slot_step set s e).1, (slot_step set s e).2, isOpen_step]
  cases ho : s.opens e with
  | some how =>
    simp only [Option.some.injEq, Option.isSome_some, ↓reduceIte, and_true]
    constructor
    · rintro rfl
      exact ⟨rfl, .inl rfl⟩
    · rintro ⟨hk, -⟩
      exact (Nat.succ.inj hk).symm
  | none =>
    cases ht : s.takes? e with
    | none => simp [h k]
    | some j =>
      have hj : k ≠ j ↔ some j ≠ some k := by simp [ne_comm]
      simp [slot_clear, h k, and_assoc, hj]

theorem slotLatest_after (token : Option Token) (es : List Event) :
    ((initial token).after set es).SlotLatest :=
  after_keeps set (slotLatest_step set) _ es (slotLatest_initial token)

theorem lt_of_isOpen (s : State) (k : RefreshId) (h : s.isOpen k = true) :
    k < s.refreshes.length := by
  refine Nat.lt_of_not_le fun hle => ?_
  simp [isOpen, (stage?_eq_none s k).mpr hle] at h

theorem SlotLatest.slot_eq {s : State} (h : s.SlotLatest) : s.slot = s.inFlight? := by
  simp only [inFlight?]
  split
  · next ho =>
    have hl := lt_of_isOpen s _ ho
    exact (h _).mpr ⟨Nat.sub_add_cancel (Nat.one_le_of_lt hl), ho⟩
  · next ho =>
    cases hs : s.slot with
    | none => rfl
    | some k =>
      obtain ⟨hk, hopen⟩ := (h k).mp hs
      rw [← hk] at ho
      exact absurd hopen ho

/-- A call that does not force a refresh starts one only into an empty slot. -/
theorem slot_of_opens {s : State} {e : Event} {how : Start} (hf : e.isForced = false)
    (ho : s.opens e = some how) : s.slot = none := by
  cases e with
  | fetch caller how first second aborted =>
    simp only [opens] at ho
    split at ho
    · next h => exact h.1
    · cases ho
  | refreshIfExpired caller reading aborted =>
    simp only [opens] at ho
    split at ho
    · next h => exact h.1
    · cases ho
  | refresh caller aborted => cases hf
  | _ => cases ho

/-- Whatever is open is in the slot. -/
def OpenInSlot (s : State) : Prop := ∀ k, s.isOpen k = true → s.slot = some k

theorem openInSlot_step (s : State) (e : Event) (hf : e.isForced = false) (h : s.OpenInSlot) :
    (step set e s).1.OpenInSlot := by
  intro k hk
  rw [(slot_step set s e).2]
  cases ho : s.opens e with
  | some how =>
    have hs := slot_of_opens hf ho
    rcases (isOpen_step set s e k).mp hk with ⟨rfl, -⟩ | ⟨hopen, -⟩
    · rfl
    · simp [h k hopen] at hs
  | none =>
    rcases (isOpen_step set s e k).mp hk with ⟨-, hsome⟩ | ⟨hopen, hne⟩
    · simp [ho] at hsome
    · cases ht : s.takes? e with
      | none => exact h k hopen
      | some j => exact (slot_clear s j k).mpr ⟨h k hopen, fun hj => hne (hj ▸ ht)⟩

theorem openInSlot_after (token : Option Token) (es : List Event)
    (hf : ∀ e ∈ es, e.isForced = false) : ((initial token).after set es).OpenInSlot := by
  suffices ∀ s : State, s.OpenInSlot → (s.after set es).OpenInSlot by
    refine this _ fun k hk => ?_
    simp [isOpen, stage?, initial] at hk
  induction es with
  | nil => exact fun s h => h
  | cons e es ih =>
    intro s h
    exact ih (fun x hx => hf x (List.mem_cons_of_mem _ hx)) _
      (openInSlot_step set s e (hf e List.mem_cons_self) h)

/-- Only the processing of its own outcome takes a refresh out of the slot, or a forced
refresh that takes its place. -/
theorem leaves_slot {s : State} {e : Event} {k : RefreshId} (hs : s.slot = some k)
    (hn : (step set e s).1.slot ≠ some k) : e = .process k ∨ e.isForced = true := by
  rw [(slot_step set s e).2] at hn
  cases ho : s.opens e with
  | some how =>
    refine .inr ?_
    cases hf : e.isForced with
    | true => rfl
    | false => simp [slot_of_opens hf ho] at hs
  | none =>
    cases ht : s.takes? e with
    | none => simp [ho, ht, hs] at hn
    | some j =>
      by_cases hj : k = j
      · exact .inl (hj ▸ (takes?_eq_some ht).1)
      · simp only [ho, ht] at hn
        exact absurd ((slot_clear s j k).mpr ⟨hs, hj⟩) hn

end State

open State in
/-- In every state that a cache gets into, the slot holds the latest refresh if its
outcome has not been processed yet, and is empty otherwise. So a call that does not
force a refresh starts one at most, and only if the latest has been processed; after any call
there is one operation to be run or kept if it has started a refresh, the one of that, and none
otherwise; without forced refreshes no two are ever open; and one that settles late leaves the
slot of a newer one alone. -/
theorem single_flight (set : Settings) (token : Option Token) (es : List Event) :
    let s := (initial token).after set es
    s.slot = s.inFlight? ∧
    (∀ e, e.isForced = false →
      let s' := (step set e s).1
      s'.refreshes.length ≤ s.refreshes.length + 1 ∧
        (s.refreshes.length < s'.refreshes.length → s.inFlight? = none)) ∧
    (∀ e c, e.caller? = some c → (step set e s).2.filter Effect.isOperation =
      if s.refreshes.length < (step set e s).1.refreshes.length then
        [e.how.effect s.refreshes.length]
      else []) ∧
    ((∀ e ∈ es, e.isForced = false) →
      ∀ j k, s.isOpen j = true → s.isOpen k = true → j = k) ∧
    (∀ e k, s.slot = some k → (step set e s).1.slot ≠ some k →
      e = .process k ∨ e.isForced = true) := by
  intro s
  have hslot : s.slot = s.inFlight? := (slotLatest_after set token es).slot_eq
  refine ⟨hslot, ?_, fun e c hc => ?_, ?_, fun e k => leaves_slot set⟩
  · intro e hf s'
    have hlen : s'.refreshes.length =
      s.refreshes.length + (if (s.opens e).isSome then 1 else 0) := (slot_step set s e).1
    cases ho : s.opens e with
    | none =>
      simp only [ho, Option.isSome_none, Bool.false_eq_true, ↓reduceIte] at hlen
      exact ⟨by omega, fun hlt => absurd hlt (by omega)⟩
    | some how =>
      simp only [ho, Option.isSome_some, ↓reduceIte] at hlen
      exact ⟨by omega, fun _ => hslot ▸ slot_of_opens hf ho⟩
  · rw [operations_call set hc, (slot_step set s e).1]
    cases ho : s.opens e with
    | none => simp
    | some how => simp [opens_how ho]
  · intro hf j k hj hk
    have h := openInSlot_after set token es hf
    exact Option.some.inj ((h j hj).symm.trans (h k hk))

end Bearer.Cache
