import Bearer.Proofs.Cache.SingleFlight

namespace Bearer.Cache

namespace State
variable (set : Settings)

theorem not_isProcessed_of_isOpen {s : State} {k : RefreshId} (h : s.isOpen k = true) :
    s.isProcessed k = false := by
  obtain ⟨stage, hs, ho⟩ := (Option.any_eq_true ..).mp h
  cases stage with
  | held | working | settled outcome => simp [isProcessed, hs, Stage.isProcessed]
  | _ => cases ho

theorem not_isProcessed_before {s : State} {e : Event} {k : RefreshId}
    (h : (step set e s).1.isProcessed k = false) : s.isProcessed k = false := by
  cases hp : s.isProcessed k with
  | false => rfl
  | true => simp [isProcessed_step set s e k hp] at h

/-- Only a call of its own makes a caller wait, for the refresh in the slot. -/
theorem joins {s : State} {e : Event} {c : CallerId} {k : RefreshId}
    (hafter : c ∈ (step set e s).1.waitersOf k) (hbefore : c ∉ s.waitersOf k) :
    e.caller? = some c ∧ (step set e s).1.slot = some k := by
  cases hd : e.caller? with
  | some d =>
    rw [waitersOf_call set s e d hd] at hafter
    split at hafter
    · next hj =>
      obtain ⟨hr, hslot, -⟩ := hj
      rcases List.mem_append.mp hafter with hc | hc
      · exact absurd hc hbefore
      · refine ⟨by rw [List.mem_singleton.mp hc], ?_⟩
        rw [step_call set s e d hd, hr]
        simpa using hslot
    · exact absurd hafter hbefore
  | none =>
    exfalso
    cases e with
    | abort d reason =>
      rw [waitersOf_abort] at hafter
      exact hbefore (List.mem_filter.mp hafter).1
    | fetch d how first second aborted => cases hd
    | refresh d aborted => cases hd
    | refreshIfExpired d reading aborted => cases hd
    | _ =>
      rw [(inner_step set s _ rfl c).1 k] at hafter
      split at hafter
      · cases hafter
      · exact hbefore hafter

/-- A call that waits, waits for the refresh that it starts, or else for the one that is in
the slot already. -/
theorem waits_for {s : State} {e : Event} {c : CallerId} (hlatest : s.SlotLatest)
    (hc : e.caller? = some c) (hr : s.reply? e = none) :
    ∃ k, (if (s.opens e).isSome then k = s.refreshes.length else s.slot = some k) ∧
      (step set e s).1.slot = some k ∧
      ∀ j, (step set e s).1.waitersOf j =
        if j = k then s.waitersOf j ++ [c] else s.waitersOf j := by
  obtain ⟨k, hk⟩ := opened_slot set s e c hc hr
  have hslot : (step set e s).1.slot = some k := by
    rw [step_call set s e c hc, hr]
    simpa using hk
  have hlt : k < (s.opened set e).1.refreshes.length := by
    have hopen := ((slotLatest_step set s e hlatest k).mp hslot).2
    have hlt := lt_of_isOpen _ k hopen
    rwa [step_call set s e c hc, hr, length_joinSlot] at hlt
  refine ⟨k, ?_, hslot, fun j => ?_⟩
  · rw [(slot_step set s e).2, takes?_call s e c hc] at hslot
    cases ho : s.opens e with
    | none => simpa [ho] using hslot
    | some how =>
      rw [ho] at hslot
      simpa using (Option.some.inj hslot).symm
  · rw [waitersOf_call set s e c hc]
    by_cases hj : j = k
    · subst hj
      simp [hr, hk, hlt]
    · have hne : ¬(some k = some j) := fun h => hj (Option.some.inj h).symm
      simp [hr, hk, hne, hj]

/-- Whoever waits made its call at a moment when the refresh was not processed yet. -/
theorem waits_since (token : Option Token) (es : List Event) (n : Nat) {c : CallerId}
    {k : RefreshId} (h : c ∈ ((initial token).moment set es n).waitersOf k) :
    ∃ m e, es[m]? = some e ∧ e.caller? = some c ∧
      ((initial token).moment set es m).isProcessed k = false := by
  induction n with
  | zero => cases h
  | succ n ih =>
    cases he : es[n]? with
    | none => exact ih (moment_succ_of_none set _ es n he ▸ h)
    | some e =>
      have hs := moment_succ set (initial token) es n e he
      by_cases hb : c ∈ ((initial token).moment set es n).waitersOf k
      · exact ih hb
      · rw [hs] at h
        obtain ⟨hc, hslot⟩ := joins set h hb
        have hopen : (step set e ((initial token).moment set es n)).1.isOpen k = true :=
          ((slotLatest_step set _ e (slotLatest_after set token (es.take n)) k).mp hslot).2
        exact ⟨n, e, he, hc, not_isProcessed_before set (not_isProcessed_of_isOpen hopen)⟩

variable {set}

/-- Nobody waits for what is over. -/
def FinishedAlone (s : State) : Prop :=
  ∀ k outcome, s.stage? k = some (.finished outcome) → s.waitersOf k = []

theorem finishedAlone_step (s : State) (e : Event) (h : s.FinishedAlone)
    (hlatest : s.SlotLatest) : (step set e s).1.FinishedAlone := by
  intro k outcome hk
  rcases stage_step set s e k with hs | ⟨stage, hturn, hs⟩
  · refine List.eq_nil_iff_forall_not_mem.mpr fun c hc => ?_
    have hnone := h k outcome (hs.symm.trans hk)
    obtain ⟨-, hslot⟩ := joins set hc (by simp [hnone])
    have hopen := ((slotLatest_step set s e hlatest k).mp hslot).2
    simp [isOpen, hk, Stage.isOpen] at hopen
  · obtain rfl := Option.some.inj (hs.symm.trans hk)
    have hends := hturn.ends
    rw [(inner_step set s e (ends_party hends) 0).1 k, hends]
    simp

variable (set) in
theorem finishedAlone_after (token : Option Token) (es : List Event) :
    ((initial token).after set es).FinishedAlone := by
  have hp := after_keeps set (p := fun s => s.FinishedAlone ∧ s.SlotLatest)
    (fun s e h => ⟨finishedAlone_step s e h.1 h.2, slotLatest_step set s e h.2⟩)
    (initial token) es ⟨fun k outcome hk => by simp [stage?, initial] at hk,
      slotLatest_initial token⟩
  exact hp.1

/-- Who gets no answer to its call waits. -/
theorem waits_of_call {s : State} {e : Event} {c : CallerId} (hlatest : s.SlotLatest)
    (hc : e.caller? = some c) (hn : answersTo c (step set e s).2 = []) :
    (step set e s).1.waits c = true := by
  have hr : s.reply? e = none := by simpa [answersTo_call set s e c hc] using hn
  obtain ⟨k, -, -, hwaiters⟩ := waits_for set hlatest hc hr
  exact (waits_iff _ c).mpr ⟨k, by simp [hwaiters k]⟩

/-- Who waits and gets no answer waits on. -/
theorem waits_step {s : State} {e : Event} {c : CallerId} (h : s.waits c = true)
    (hn : answersTo c (step set e s).2 = []) : (step set e s).1.waits c = true := by
  obtain ⟨k, hk⟩ := (waits_iff s c).mp h
  refine (waits_iff _ c).mpr ⟨k, ?_⟩
  cases hd : e.caller? with
  | some d =>
    rw [waitersOf_call set s e d hd]
    split
    · exact List.mem_append_left _ hk
    · exact hk
  | none =>
    by_cases hp : e.party? = some c
    · cases e with
      | abort d reason =>
        obtain rfl := Option.some.inj hp
        simp [answersTo_abort, h] at hn
      | fetch d how first second aborted => cases hd
      | refresh d aborted => cases hd
      | refreshIfExpired d reading aborted => cases hd
      | _ => cases hp
    · obtain ⟨hcount, hans⟩ := other_step set s e c hp
      have hpos := List.count_pos_iff.mpr hk
      refine List.count_pos_iff.mp ?_
      rw [hcount k]
      split
      · next hany =>
        obtain ⟨⟨j, outcome⟩, hends, hj⟩ := (Option.any_eq_true ..).mp hany
        obtain rfl : k = j := by simpa using hj
        rw [hans, hends] at hn
        simp only [List.replicate_eq_nil_iff] at hn
        exact absurd hn (Nat.pos_iff_ne_zero.mp hpos)
      · exact hpos

theorem waits_after {s : State} {es : List Event} {c : CallerId} (h : s.waits c = true)
    (hn : answersTo c (s.effects set es) = []) : (s.after set es).waits c = true := by
  induction es generalizing s with
  | nil => exact h
  | cons e es ih =>
    simp only [effects_cons, answersTo_append, List.append_eq_nil_iff] at hn
    exact ih (waits_step h hn.1) hn.2

/-- Whoever got no answer since its call still waits. -/
theorem waits_of_unanswered {token : Option Token} {es : List Event} {i : Nat} {e : Event}
    {c : CallerId} (he : es[i]? = some e) (hc : e.caller? = some c)
    (hn : answersTo c (((initial token).moment set es i).effects set (es.drop i)) = []) :
    ((initial token).after set es).waits c = true := by
  rw [effects_drop set _ es i e he, answersTo_append, List.append_eq_nil_iff] at hn
  have hw := waits_of_call (slotLatest_after set token (es.take i)) hc hn.1
  rw [← moment, ← moment_succ set _ es i e he] at hw
  rw [← after_drop set _ es (i + 1)]
  exact waits_after hw hn.2

/-- The caller waits for this refresh, once, and for no other. -/
def WaitsOnce (s : State) (c : CallerId) (k : RefreshId) : Prop :=
  ∀ j, (s.waitersOf j).count c = if j = k then 1 else 0

theorem count_of_not_waits {s : State} {c : CallerId} (h : s.waits c = false) (k : RefreshId) :
    (s.waitersOf k).count c = 0 := by
  refine List.count_eq_zero.mpr fun hc => ?_
  simp [(waits_iff s c).mpr ⟨k, hc⟩] at h

theorem not_waits_of_count {s : State} {c : CallerId} (h : ∀ k, (s.waitersOf k).count c = 0) :
    s.waits c = false := by
  cases hw : s.waits c with
  | false => rfl
  | true =>
    obtain ⟨k, hc⟩ := (waits_iff s c).mp hw
    exact absurd hc (List.count_eq_zero.mp (h k))

theorem waitsOnce_of_call {s : State} {e : Event} {c : CallerId} {k : RefreshId}
    (hc : e.caller? = some c) (hidle : s.waits c = false)
    (hwaits : c ∈ (step set e s).1.waitersOf k) :
    answersTo c (step set e s).2 = [] ∧ (step set e s).1.WaitsOnce c k := by
  rw [waitersOf_call set s e c hc] at hwaits
  split at hwaits
  · next hjoin =>
    obtain ⟨hr, hslot, hlt⟩ := hjoin
    refine ⟨by simp [answersTo_call set s e c hc, hr], fun j => ?_⟩
    rw [waitersOf_call set s e c hc]
    by_cases hj : j = k
    · subst hj
      simp [hr, hslot, hlt, count_of_not_waits hidle]
    · have hne : ¬(some k = some j) := fun h => hj (Option.some.inj h).symm
      simp [hr, hslot, hne, hj, count_of_not_waits hidle]
  · simp [(waits_iff s c).mpr ⟨k, hwaits⟩] at hidle

variable (set) in
/-- Who does not wait hears nothing until it calls. -/
theorem silent_step {s : State} {e : Event} {c : CallerId} (h : s.waits c = false)
    (hc : e.caller? ≠ some c) :
    answersTo c (step set e s).2 = [] ∧ (step set e s).1.waits c = false := by
  by_cases hp : e.party? = some c
  · cases e with
    | abort d reason =>
      obtain rfl := Option.some.inj hp
      refine ⟨by simp [answersTo_abort, h], not_waits_of_count fun k => ?_⟩
      rw [waitersOf_abort]
      exact List.count_eq_zero.mpr (by simp)
    | fetch | refresh | refreshIfExpired => exact absurd hp hc
    | _ => cases hp
  · obtain ⟨hcount, hans⟩ := other_step set s e c hp
    refine ⟨?_, not_waits_of_count fun k => ?_⟩
    · rw [hans]
      split
      · simp [count_of_not_waits h]
      · rfl
    · rw [hcount k, count_of_not_waits h k]
      split <;> rfl

variable (set) in
theorem silent {s : State} {es : List Event} {c : CallerId} (h : s.waits c = false)
    (hcalls : ∀ e ∈ es, e.caller? ≠ some c) :
    answersTo c (s.effects set es) = [] ∧ (s.after set es).waits c = false := by
  induction es generalizing s with
  | nil => exact ⟨rfl, h⟩
  | cons e es ih =>
    obtain ⟨hnone, hnext⟩ := silent_step set h (hcalls e List.mem_cons_self)
    obtain ⟨hrest, hlast⟩ := ih hnext fun f hf => hcalls f (List.mem_cons_of_mem _ hf)
    exact ⟨by simp [hnone, hrest], hlast⟩

variable (set) in
/-- Only the end of a refresh takes from it who does not leave, and answers. -/
theorem WaitsOnce.step {s : State} {e : Event} {c : CallerId} {k : RefreshId}
    (h : s.WaitsOnce c k) (hother : e.party? ≠ some c) :
    (answersTo c (step set e s).2 = [] ∧ (step set e s).1.WaitsOnce c k) ∨
    ∃ outcome, answersTo c (step set e s).2 = [outcome.map some] ∧
      (step set e s).1.stage? k = some (.finished outcome) ∧
      (step set e s).1.waits c = false := by
  obtain ⟨hcount, hans⟩ := other_step set s e c hother
  cases hends : s.ends set e with
  | none =>
    rw [hends] at hans
    refine .inl ⟨hans, fun j => ?_⟩
    rw [hcount j, hends]
    exact h j
  | some ended =>
    obtain ⟨j, outcome⟩ := ended
    rw [hends] at hans
    by_cases hj : j = k
    · subst hj
      refine .inr ⟨outcome, by simp [hans, h j], (turn_of_ends hends).stage, ?_⟩
      refine not_waits_of_count fun i => ?_
      rw [hcount i, hends, h i]
      by_cases hi : i = j <;> simp [hi]
    · refine .inl ⟨by simp [hans, h j, hj], fun i => ?_⟩
      rw [hcount i, hends, h i]
      by_cases hi : i = k
      · simp [hi, Ne.symm hj]
      · simp [hi]

variable (set) in
/-- Who waits for one refresh waits on, or that is over and its outcome was the answer. -/
theorem WaitsOnce.run {s : State} {es : List Event} {c : CallerId} {k : RefreshId}
    (h : s.WaitsOnce c k) (hother : ∀ e ∈ es, e.party? ≠ some c) :
    (answersTo c (s.effects set es) = [] ∧ (s.after set es).WaitsOnce c k) ∨
    ∃ outcome, answersTo c (s.effects set es) = [outcome.map some] ∧
      (s.after set es).stage? k = some (.finished outcome) ∧
      (s.after set es).waits c = false := by
  induction es generalizing s with
  | nil => exact .inl ⟨rfl, h⟩
  | cons e es ih =>
    have hrest : ∀ f ∈ es, f.party? ≠ some c := fun f hf => hother f (List.mem_cons_of_mem _ hf)
    rw [effects_cons, answersTo_append]
    rcases h.step set (hother e List.mem_cons_self) with
      ⟨hnone, hnext⟩ | ⟨outcome, hone, hfinished, hgone⟩
    · rw [hnone, List.nil_append]
      exact ih hnext hrest
    · -- From the end on nothing more is heard.
      have hcalls : ∀ f ∈ es, f.caller? ≠ some c := fun f hf hc =>
        hrest f hf (party_of_caller hc)
      obtain ⟨hsilent, hlast⟩ := silent set hgone hcalls
      have hover := after_keeps set (p := fun s => s.stage? k = some (.finished outcome))
        (fun s e => finished_step set s e k outcome) _ es hfinished
      exact .inr ⟨outcome, by simp [hone, hsilent], hover, hlast⟩

theorem WaitsOnce.not_finished {s : State} {c : CallerId} {k : RefreshId}
    (h : s.WaitsOnce c k) (halone : s.FinishedAlone) (outcome : Result Token) :
    s.stage? k ≠ some (.finished outcome) := by
  intro hover
  have hone := h k
  rw [halone k outcome hover] at hone
  simp at hone

theorem WaitsOnce.unique {s : State} {c : CallerId} {j k : RefreshId} (h : s.WaitsOnce c k)
    (hj : c ∈ s.waitersOf j) : j = k := by
  have hpos := List.count_pos_iff.mpr hj
  rw [h j] at hpos
  split at hpos
  · assumption
  · cases hpos

theorem waitsOnce_at {s : State} {es : List Event} {i : Nat} {e : Event} {c : CallerId}
    {k : RefreshId} (he : es[i]? = some e) (hc : e.caller? = some c)
    (hidle : (s.moment set es i).waits c = false)
    (hwaits : c ∈ (s.moment set es (i + 1)).waitersOf k) :
    (s.moment set es (i + 1)).WaitsOnce c k := by
  rw [moment_succ set s es i e he] at hwaits ⊢
  exact (waitsOnce_of_call hc hidle hwaits).2

variable (set) in
theorem since_call {s : State} {es : List Event} {i : Nat} {e : Event} {c : CallerId}
    {k : RefreshId} (he : es[i]? = some e) (hc : e.caller? = some c)
    (hidle : (s.moment set es i).waits c = false)
    (hwaits : c ∈ (s.moment set es (i + 1)).waitersOf k)
    (hother : ∀ f ∈ es.drop (i + 1), f.party? ≠ some c) :
    (answersTo c ((s.moment set es i).effects set (es.drop i)) = [] ∧
      (s.after set es).WaitsOnce c k) ∨
    ∃ outcome,
      answersTo c ((s.moment set es i).effects set (es.drop i)) = [outcome.map some] ∧
      (s.after set es).stage? k = some (.finished outcome) ∧
      (s.after set es).waits c = false := by
  have hrun := (waitsOnce_at he hc hidle hwaits).run set hother
  rw [moment_succ set s es i e he] at hwaits
  obtain ⟨hnothing, -⟩ := waitsOnce_of_call hc hidle hwaits
  rw [effects_drop set s es i e he, answersTo_append, hnothing, List.nil_append]
  rwa [after_drop] at hrun

end State
end Bearer.Cache
