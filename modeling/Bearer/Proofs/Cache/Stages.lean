import Bearer.Proofs.Cache.Calls

namespace Bearer.Cache

namespace Stage

/-- The outcome has not been processed yet. -/
def isOpen : Stage → Bool
  | .held | .working | .settled _ => true
  | _ => false

def isSettled : Stage → Bool
  | .held | .working => false
  | _ => true

def isProcessed : Stage → Bool
  | .notifying .. | .finished _ => true
  | _ => false

/-- How far on its way a refresh is. -/
def rank : Stage → Nat
  | .held => 0
  | .working => 1
  | .settled _ => 2
  | .notifying .. => 3
  | .finished _ => 4

theorem isSettled_iff (stage : Stage) : stage.isSettled = true ↔ 2 ≤ stage.rank := by
  cases stage <;> simp [isSettled, rank]

theorem isProcessed_iff (stage : Stage) : stage.isProcessed = true ↔ 3 ≤ stage.rank := by
  cases stage <;> simp [isProcessed, rank]

def isTelling : Stage → Bool
  | .notifying .. => true
  | _ => false

/-- The stage in which some listeners are left to be called. -/
def telling (token : Token) : List ListenerId → Stage
  | [] => .finished (.ok token)
  | l :: rest => .notifying token l rest

theorem rank_telling (token : Token) (left : List ListenerId) : 3 ≤ (telling token left).rank := by
  cases left <;> simp [telling, rank]

end Stage

/-- What the log says of the end of a listener's call, unless the failure of the
listener cannot be told. -/
def Settings.complaint (set : Settings) : Option Thrown → Result (List Effect)
  | none => .ok []
  | some failure =>
    if set.logging then
      (Log.warning "credentials change listener failed" failure).map (fun entry => [.log entry])
    else .ok []

theorem Settings.complaint_cases {set : Settings} {failure : Option Thrown}
    {said : List Effect} (h : set.complaint failure = .ok said) :
    said = [] ∨ ∃ entry, said = [.log entry] := by
  cases failure with
  | none =>
    cases h
    exact .inl rfl
  | some failure =>
    simp only [Settings.complaint] at h
    split at h
    · cases hw : Log.warning "credentials change listener failed" failure with
      | error fault => simp [hw, Except.map] at h
      | ok entry =>
        simp only [hw, Except.map, Except.ok.injEq] at h
        exact .inr ⟨entry, h.symm⟩
    · cases h
      exact .inl rfl

namespace State
variable (set : Settings)

def isOpen (s : State) (k : RefreshId) : Bool := (s.stage? k).any Stage.isOpen

def isSettled (s : State) (k : RefreshId) : Bool := (s.stage? k).any Stage.isSettled

def isProcessed (s : State) (k : RefreshId) : Bool := (s.stage? k).any Stage.isProcessed

def isTelling (s : State) (k : RefreshId) : Bool := (s.stage? k).any Stage.isTelling

def waitersOf (s : State) (k : RefreshId) : List CallerId :=
  ((s.refreshes[k]?).map Refresh.waiters).getD []

/-- The refresh that an event brings to its end, with its outcome. -/
def ends (s : State) : Event → Option (RefreshId × Result Token)
  | .process k =>
    match s.stage? k with
    | some (.settled (.ok token)) => if s.listeners = [] then some (k, .ok token) else none
    | some (.settled (.error failure)) => some (k, .error failure)
    | _ => none
  | .listenerDone k failure =>
    match s.stage? k with
    | some (.notifying token _ rest) =>
      match set.complaint failure with
      | .ok _ => if rest = [] then some (k, .ok token) else none
      | .error fault => some (k, .error fault)
    | _ => none
  | _ => none

theorem stage?_eq_none (s : State) (k : RefreshId) :
    s.stage? k = none ↔ s.refreshes.length ≤ k := by
  simp [stage?]

theorem stage?_start (s : State) (how : Start) (j : RefreshId) :
    (s.start set how).1.stage? j =
      if j = s.refreshes.length then some how.stage else s.stage? j := by
  simp only [stage?, start_refreshes, List.getElem?_append]
  grind

@[simp] theorem stage?_join (s : State) (k : RefreshId) (c : CallerId) (j : RefreshId) :
    (s.join k c).stage? j = s.stage? j := by
  simp only [stage?, join, List.getElem?_modify]
  cases s.refreshes[j]? <;> simp
  split <;> rfl

@[simp] theorem stage?_joinSlot (s : State) (c : CallerId) (j : RefreshId) :
    (s.joinSlot c).stage? j = s.stage? j := by
  unfold joinSlot
  split <;> simp

@[simp] theorem stage?_leave (s : State) (c : CallerId) (j : RefreshId) :
    (s.leave c).stage? j = s.stage? j := by
  simp [stage?, leave, Function.comp_def]

@[simp] theorem stage?_token (s : State) (token : Option Token) (j : RefreshId) :
    ({ s with token } : State).stage? j = s.stage? j := rfl

@[simp] theorem stage?_clear (s : State) (k j : RefreshId) :
    (s.clear k).stage? j = s.stage? j := by
  unfold clear
  split <;> rfl

@[simp] theorem clear_listeners (s : State) (k : RefreshId) :
    (s.clear k).listeners = s.listeners := by
  unfold clear
  split <;> rfl

theorem stage?_setStage (s : State) (k : RefreshId) (stage : Stage) (j : RefreshId) :
    (s.setStage k stage).stage? j =
      if j = k then (s.stage? j).map (fun _ => stage) else s.stage? j := by
  simp only [stage?, setStage, List.getElem?_modify]
  grind

theorem stage?_finish (s : State) (k : RefreshId) (outcome : Result Token) (j : RefreshId) :
    (s.finish set k outcome).1.stage? j =
      if j = k then (s.stage? j).map (fun _ => .finished outcome) else s.stage? j := by
  simp only [stage?, finish, List.getElem?_modify]
  grind

theorem stage?_notifyNext (s : State) (k : RefreshId) (token : Token) (left : List ListenerId)
    (j : RefreshId) :
    (s.notifyNext set k token left).1.stage? j =
      if j = k then (s.stage? j).map (fun _ => .telling token left) else s.stage? j := by
  cases left with
  | nil => simp [notifyNext, stage?_finish, Stage.telling]
  | cons l rest => simp [notifyNext, stage?_setStage, Stage.telling]

theorem stage?_opened (s : State) (e : Event) (j : RefreshId) :
    (s.opened set e).1.stage? j =
      if j = s.refreshes.length then (s.opens e).map Start.stage else s.stage? j := by
  have hn : s.stage? s.refreshes.length = none := (stage?_eq_none s _).mpr (Nat.le_refl _)
  unfold opened
  split
  · next how ho => simp [stage?_start, ho]
  · next ho =>
    split
    · next hj => simp [ho, hj, hn]
    · rfl

/-- The end of a listener's call leads to the next one, or to the end of the refresh. -/
theorem listenerDone_eq (s : State) (k : RefreshId) (failure : Option Thrown) (token : Token)
    (l : ListenerId) (rest : List ListenerId) (hk : s.stage? k = some (.notifying token l rest)) :
    s.listenerDone set k failure = match set.complaint failure with
      | .ok said =>
        ((s.notifyNext set k token rest).1, said ++ (s.notifyNext set k token rest).2)
      | .error fault => s.finish set k (.error fault) := by
  cases failure with
  | none => simp [listenerDone, hk, Settings.complaint]
  | some failure =>
    simp only [listenerDone, hk, Settings.complaint]
    cases set.logging
    · rfl
    · cases Log.warning "credentials change listener failed" failure <;> rfl

/-- An event moves a refresh on to a stage. -/
inductive Turn (s : State) : Event → RefreshId → Stage → Prop
  | started {e : Event} {how : Start} (ho : s.opens e = some how) :
      Turn s e s.refreshes.length how.stage
  | launched {k : RefreshId} (hk : s.stage? k = some .held) : Turn s (.launch k) k .working
  | settled {k : RefreshId} {outcome : Result Token} (hk : s.stage? k = some .working) :
      Turn s (.settle k outcome) k (.settled outcome)
  | failed {k : RefreshId} {failure : Thrown}
      (hk : s.stage? k = some (.settled (.error failure))) :
      Turn s (.process k) k (.finished (.error failure))
  | installed {k : RefreshId} {token : Token} (hk : s.stage? k = some (.settled (.ok token))) :
      Turn s (.process k) k (.telling token s.listeners)
  | told {k : RefreshId} {failure : Option Thrown} {token : Token} {l : ListenerId}
      {rest : List ListenerId} {said : List Effect}
      (hk : s.stage? k = some (.notifying token l rest))
      (hf : set.complaint failure = .ok said) :
      Turn s (.listenerDone k failure) k (.telling token rest)
  | untold {k : RefreshId} {failure : Option Thrown} {token : Token} {l : ListenerId}
      {rest : List ListenerId} {fault : Thrown}
      (hk : s.stage? k = some (.notifying token l rest))
      (hf : set.complaint failure = .error fault) :
      Turn s (.listenerDone k failure) k (.finished (.error fault))

variable {set} in
theorem Turn.changes {s : State} {e : Event} {k : RefreshId} {stage old : Stage}
    (ht : Turn set s e k stage) (hk : s.stage? k = some old) (j : RefreshId)
    {after : Option Stage}
    (ha : after = if j = k then (s.stage? j).map (fun _ => stage) else s.stage? j) :
    after = s.stage? j ∨ ∃ stage, Turn set s e j stage ∧ after = some stage := by
  by_cases hj : j = k
  · subst hj
    exact .inr ⟨stage, ht, by simp [ha, hk]⟩
  · exact .inl (by simp [ha, hj])

/-- One step moves on one refresh at most, along its way. -/
theorem stage_step (s : State) (e : Event) (j : RefreshId) :
    (step set e s).1.stage? j = s.stage? j ∨
      ∃ stage, Turn set s e j stage ∧ (step set e s).1.stage? j = some stage := by
  cases hc : e.caller? with
  | some c =>
    have hs : (step set e s).1.stage? j = (s.opened set e).1.stage? j := by
      rw [step_call set s e c hc]
      cases s.reply? e <;> simp
    -- Of a call only the start of a refresh matters, not who joins it.
    rw [hs, stage?_opened]
    split
    · next hj =>
      cases ho : s.opens e with
      | none => exact .inl (by simp [hj, stage?])
      | some how => exact .inr ⟨_, hj ▸ .started ho, rfl⟩
    · exact .inl rfl
  | none =>
    cases e with
    | launch k =>
      simp only [step, launch]
      split
      · next hk => exact Turn.changes (.launched hk) hk j (stage?_setStage ..)
      · exact .inl rfl
    | settle k outcome =>
      simp only [step, settle]
      split
      · next hk => exact Turn.changes (.settled hk) hk j (stage?_setStage ..)
      · exact .inl rfl
    | process k =>
      simp only [step, process]
      split
      · next token hk =>
        exact Turn.changes (.installed hk) hk j (by simp [stage?_notifyNext])
      · next failure hk => exact Turn.changes (.failed hk) hk j (by simp [stage?_finish])
      · exact .inl rfl
    | listenerDone k failure =>
      cases hk : s.stage? k with
      | none => exact .inl (by simp [step, listenerDone, hk])
      | some stage =>
        cases stage with
        | notifying token l rest =>
          simp only [step, listenerDone_eq set s k failure token l rest hk]
          split
          · next said hf => exact Turn.changes (.told hk hf) hk j (stage?_notifyNext ..)
          · next fault hf => exact Turn.changes (.untold hk hf) hk j (stage?_finish ..)
        | _ => exact .inl (by simp [step, listenerDone, hk])
    | listen l => exact .inl rfl
    | abort caller reason =>
      simp only [step, abort]
      split <;> exact .inl (by simp)
    | callbackFailed failure => exact .inl rfl
    | _ => cases hc

variable {set} in
theorem Turn.stage {s : State} {e : Event} {k : RefreshId} {stage : Stage}
    (ht : Turn set s e k stage) : (step set e s).1.stage? k = some stage := by
  cases ht with
  | started ho =>
    cases hc : e.caller? with
    | none => simp [opens_of_no_call s e hc] at ho
    | some c =>
      have hs : (step set e s).1.stage? s.refreshes.length =
          (s.opened set e).1.stage? s.refreshes.length := by
        rw [step_call set s e c hc]
        cases s.reply? e <;> simp
      simp [hs, stage?_opened, ho]
  | launched hk => simp [step, launch, hk, stage?_setStage]
  | settled hk => simp [step, settle, hk, stage?_setStage]
  | failed hk => simp [step, process, hk, stage?_finish]
  | installed hk => simp [step, process, hk, stage?_notifyNext]
  | told hk hf => simp [step, listenerDone_eq set s _ _ _ _ _ hk, hf, stage?_notifyNext, hk]
  | untold hk hf => simp [step, listenerDone_eq set s _ _ _ _ _ hk, hf, stage?_finish, hk]

variable {set} in
theorem Turn.rank_le {s : State} {e : Event} {k : RefreshId} {old stage : Stage}
    (ht : Turn set s e k stage) (h : s.stage? k = some old) : old.rank ≤ stage.rank := by
  cases ht with
  | started ho => simp [(stage?_eq_none s _).mpr (Nat.le_refl _)] at h
  | launched hk | settled hk | failed hk | untold hk hf =>
    obtain rfl := Option.some.inj (hk.symm.trans h)
    simp [Stage.rank]
  | installed hk =>
    obtain rfl := Option.some.inj (hk.symm.trans h)
    exact Nat.le_of_succ_le (Stage.rank_telling _ _)
  | told hk hf =>
    obtain rfl := Option.some.inj (hk.symm.trans h)
    exact Stage.rank_telling _ _

variable {set} in
theorem Turn.unique {s : State} {e : Event} {j k : RefreshId} {x y : Stage}
    (hj : Turn set s e j x) (hk : Turn set s e k y) : j = k := by
  cases hj with
  | started ho =>
    cases hk with
    | started => rfl
    | launched | settled | failed | installed | told | untold => cases ho
  | launched | settled | failed | installed | told | untold =>
    cases hk with
    | started ho => cases ho
    | _ => rfl

variable {set} in
theorem Turn.ends {s : State} {e : Event} {k : RefreshId} {outcome : Result Token}
    (h : Turn set s e k (.finished outcome)) : s.ends set e = some (k, outcome) := by
  generalize hstage : Stage.finished outcome = stage at h
  cases h with
  | @started _ how ho => cases how <;> cases hstage
  | launched hk | settled hk => cases hstage
  | failed hk =>
    cases hstage
    simp [State.ends, hk]
  | installed hk =>
    cases hl : s.listeners with
    | nil =>
      simp only [hl, Stage.telling, Stage.finished.injEq] at hstage
      simp [State.ends, hk, hl, hstage]
    | cons l rest => simp [hl, Stage.telling] at hstage
  | @told _ _ _ _ rest _ hk hf =>
    cases rest with
    | nil =>
      cases hstage
      simp [State.ends, hk, hf]
    | cons l rest => simp [Stage.telling] at hstage
  | untold hk hf =>
    cases hstage
    simp [State.ends, hk, hf]

variable {set} in
theorem turn_of_ends {s : State} {e : Event} {k : RefreshId} {outcome : Result Token}
    (h : s.ends set e = some (k, outcome)) : Turn set s e k (.finished outcome) := by
  cases e with
  | process j =>
    simp only [ends] at h
    split at h
    · next token hj =>
      split at h
      · next hl =>
        cases h
        have hturn : Turn set s (.process k) k _ := .installed hj
        rwa [hl] at hturn
      · cases h
    · next failure hj =>
      cases h
      exact .failed hj
    · cases h
  | listenerDone j failure =>
    simp only [ends] at h
    split at h
    · next token l rest hj =>
      split at h
      · next said hf =>
        split at h
        · next hl =>
          cases h
          subst hl
          exact .told hj hf
        · cases h
      · next fault hf =>
        cases h
        exact .untold hj hf
    · cases h
  | _ => cases h

/-- No step takes a refresh back. -/
theorem stage_forward (s : State) (e : Event) (k : RefreshId) (old : Stage)
    (h : s.stage? k = some old) :
    ∃ new, (step set e s).1.stage? k = some new ∧ old.rank ≤ new.rank := by
  rcases stage_step set s e k with hs | ⟨stage, ht, hs⟩
  · exact ⟨old, hs.trans h, Nat.le_refl _⟩
  · exact ⟨stage, hs, ht.rank_le h⟩

theorem isSettled_iff (s : State) (k : RefreshId) :
    s.isSettled k = true ↔ ∃ stage, s.stage? k = some stage ∧ 2 ≤ stage.rank := by
  simp [isSettled, Option.any_eq_true, Stage.isSettled_iff]

theorem isProcessed_iff (s : State) (k : RefreshId) :
    s.isProcessed k = true ↔ ∃ stage, s.stage? k = some stage ∧ 3 ≤ stage.rank := by
  simp [isProcessed, Option.any_eq_true, Stage.isProcessed_iff]

theorem isSettled_step (s : State) (e : Event) (k : RefreshId) (h : s.isSettled k = true) :
    (step set e s).1.isSettled k = true := by
  obtain ⟨old, ho, hr⟩ := (isSettled_iff s k).mp h
  obtain ⟨new, hn, hle⟩ := stage_forward set s e k old ho
  exact (isSettled_iff _ k).mpr ⟨new, hn, Nat.le_trans hr hle⟩

theorem isProcessed_step (s : State) (e : Event) (k : RefreshId) (h : s.isProcessed k = true) :
    (step set e s).1.isProcessed k = true := by
  obtain ⟨old, ho, hr⟩ := (isProcessed_iff s k).mp h
  obtain ⟨new, hn, hle⟩ := stage_forward set s e k old ho
  exact (isProcessed_iff _ k).mpr ⟨new, hn, Nat.le_trans hr hle⟩

theorem finished_step (s : State) (e : Event) (k : RefreshId) (outcome : Result Token)
    (h : s.stage? k = some (.finished outcome)) :
    (step set e s).1.stage? k = some (.finished outcome) := by
  rcases stage_step set s e k with hs | ⟨stage, ht, hs⟩
  · exact hs.trans h
  · cases ht with
    | started ho => simp [(stage?_eq_none s _).mpr (Nat.le_refl _)] at h
    | launched hk | settled hk | failed hk | installed hk | told hk hf | untold hk hf =>
      simp [hk] at h

end State
end Bearer.Cache
