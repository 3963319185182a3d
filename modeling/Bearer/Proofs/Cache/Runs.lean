import Bearer.Proofs.Cache.Waiters

namespace Bearer.Cache

theorem event_of_take {es : List Event} {m : Nat} {e : Event} (h : e ∈ es.take m) :
    ∃ n < m, es[n]? = some e := by
  obtain ⟨n, hn⟩ := List.mem_iff_getElem?.mp h
  obtain ⟨hlt, -⟩ := List.getElem?_eq_some_iff.mp hn
  have hnm : n < m := Nat.lt_of_lt_of_le hlt (List.length_take_le m es)
  exact ⟨n, hnm, by rwa [List.getElem?_take_of_lt hnm] at hn⟩

theorem event_of_drop {es : List Event} {m : Nat} {e : Event} (h : e ∈ es.drop m) :
    ∃ n, m ≤ n ∧ es[n]? = some e := by
  obtain ⟨n, hn⟩ := List.mem_iff_getElem?.mp h
  rw [List.getElem?_drop] at hn
  exact ⟨m + n, Nat.le_add_right m n, hn⟩

namespace State
variable (set : Settings)

def initial (token : Option Token) : State := { token }

def after (s : State) (es : List Event) : State := (run set es s).1

/-- All that some events make the surroundings do. -/
def effects (s : State) (es : List Event) : List Effect := (run set es s).2

@[simp] theorem after_nil (s : State) : s.after set [] = s := rfl

@[simp] theorem effects_nil (s : State) : s.effects set [] = [] := rfl

@[simp] theorem after_cons (s : State) (e : Event) (es : List Event) :
    s.after set (e :: es) = (step set e s).1.after set es := rfl

@[simp] theorem effects_cons (s : State) (e : Event) (es : List Event) :
    s.effects set (e :: es) = (step set e s).2 ++ (step set e s).1.effects set es := rfl

theorem after_append (s : State) (es fs : List Event) :
    s.after set (es ++ fs) = (s.after set es).after set fs := by
  induction es generalizing s with
  | nil => rfl
  | cons e es ih => simp [ih]

theorem effects_append (s : State) (es fs : List Event) :
    s.effects set (es ++ fs) = s.effects set es ++ (s.after set es).effects set fs := by
  induction es generalizing s with
  | nil => rfl
  | cons e es ih => simp [ih]

/-- What every step keeps every run keeps. -/
theorem after_keeps {p : State → Prop} (hp : ∀ s e, p s → p (step set e s).1) (s : State)
    (es : List Event) (h : p s) : p (s.after set es) := by
  induction es generalizing s with
  | nil => exact h
  | cons e es ih => exact ih _ (hp s e h)

/-- The cache after so many events of a run. -/
def moment (s : State) (es : List Event) (n : Nat) : State := s.after set (es.take n)

@[simp] theorem moment_zero (s : State) (es : List Event) : s.moment set es 0 = s := rfl

theorem moment_length (s : State) (es : List Event) :
    s.moment set es es.length = s.after set es := by
  simp [moment]

theorem moment_succ (s : State) (es : List Event) (n : Nat) (e : Event) (he : es[n]? = some e) :
    s.moment set es (n + 1) = (step set e (s.moment set es n)).1 := by
  simp [moment, List.take_add_one, he, after_append]

variable {set} in
/-- The stage that an event of a run moves a refresh on to. -/
theorem Turn.moment {s : State} {es : List Event} {n : Nat} {e : Event} {k : RefreshId}
    {stage : Stage} (ht : Turn set (s.moment set es n) e k stage) (he : es[n]? = some e) :
    (s.moment set es (n + 1)).stage? k = some stage := by
  rw [moment_succ set s es n e he]
  exact ht.stage

theorem moment_succ_of_none (s : State) (es : List Event) (n : Nat) (he : es[n]? = none) :
    s.moment set es (n + 1) = s.moment set es n := by
  simp [moment, List.take_add_one, he]

theorem effects_succ (s : State) (es : List Event) (n : Nat) (e : Event) (he : es[n]? = some e) :
    s.effects set (es.take (n + 1)) =
      s.effects set (es.take n) ++ (step set e (s.moment set es n)).2 := by
  simp [moment, List.take_add_one, he, effects_append]

theorem after_drop (s : State) (es : List Event) (n : Nat) :
    (s.moment set es n).after set (es.drop n) = s.after set es := by
  rw [moment, ← after_append, List.take_append_drop]

theorem effects_split (s : State) (es : List Event) (n : Nat) :
    s.effects set es =
      s.effects set (es.take n) ++ (s.moment set es n).effects set (es.drop n) := by
  rw [moment, ← effects_append, List.take_append_drop]

theorem moment_take (s : State) (es : List Event) {n m : Nat} (h : n ≤ m) :
    s.moment set (es.take m) n = s.moment set es n := by
  rw [moment, moment, List.take_take, Nat.min_eq_left h]

theorem effects_drop (s : State) (es : List Event) (n : Nat) (e : Event)
    (he : es[n]? = some e) :
    (s.moment set es n).effects set (es.drop n) =
      (step set e (s.moment set es n)).2 ++
        (s.moment set es (n + 1)).effects set (es.drop (n + 1)) := by
  obtain ⟨hn, rfl⟩ := List.getElem?_eq_some_iff.mp he
  rw [List.drop_eq_getElem_cons hn, effects_cons, moment_succ set s es n _ he]

theorem moment_keeps {p : State → Prop} (hp : ∀ s e, p s → p (step set e s).1) (s : State)
    (es : List Event) {n m : Nat} (hn : n ≤ m) (h : p (s.moment set es n)) :
    p (s.moment set es m) := by
  obtain ⟨d, rfl⟩ := Nat.exists_eq_add_of_le hn
  rw [moment, List.take_add, after_append]
  exact after_keeps set hp _ _ h

theorem isProcessed_moment (s : State) (es : List Event) (k : RefreshId) {n m : Nat}
    (hn : n ≤ m) (h : (s.moment set es n).isProcessed k = true) :
    (s.moment set es m).isProcessed k = true :=
  moment_keeps set (p := fun s => s.isProcessed k = true)
    (fun s e => isProcessed_step set s e k) s es hn h

theorem not_isProcessed_moment (s : State) (es : List Event) (k : RefreshId) {n m : Nat}
    (hn : n ≤ m) (h : (s.moment set es m).isProcessed k = false) :
    (s.moment set es n).isProcessed k = false := by
  cases hp : (s.moment set es n).isProcessed k with
  | false => rfl
  | true => simp [isProcessed_moment set s es k hn hp] at h

/-- At some moment of a run the one refresh has come so far, and the other has not. -/
def Before (reached : State → RefreshId → Bool) (s : State) (es : List Event)
    (j k : RefreshId) : Prop :=
  ∃ n, reached (s.moment set es n) j = true ∧ reached (s.moment set es n) k = false

variable {set} in
theorem Before.trans {reached : State → RefreshId → Bool}
    (hp : ∀ s e k, reached s k = true → reached (step set e s).1 k = true) {s : State}
    {es : List Event} {i j k : RefreshId} (hij : s.Before set reached es i j)
    (hjk : s.Before set reached es j k) : s.Before set reached es i k := by
  obtain ⟨n, hi, hj⟩ := hij
  obtain ⟨m, hj', hk⟩ := hjk
  have keeps := fun k => moment_keeps set (p := fun s => reached s k = true) (fun s e => hp s e k)
  refine ⟨m, keeps i s es (Nat.le_of_not_le fun hle => ?_) hi, hk⟩
  simp [keeps j s es hle hj'] at hj

end State
end Bearer.Cache
