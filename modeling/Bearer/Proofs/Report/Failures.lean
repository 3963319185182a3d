import Bearer.Proofs.Report

namespace Bearer

namespace Thrown

mutual

/-- What the functions within a value fail with when they are called. -/
def raised : Thrown → List Thrown
  | function _ failure => failure.toList
  | object _ entries => raisedEntries entries
  | array _ items => raisedItems items
  | error _ _ cause _ errors => raisedCause cause ++ raisedItems errors
  | _ => []

def raisedCause : Option Thrown → List Thrown
  | none => []
  | some v => raised v

def raisedItems : List Thrown → List Thrown
  | [] => []
  | v :: vs => raised v ++ raisedItems vs

def raisedEntries : List (String × Thrown) → List Thrown
  | [] => []
  | (_, v) :: es => raised v ++ raisedEntries es

end

theorem mem_raised_of_called? {v : Thrown} {failure : Thrown}
    (h : Report.called? v = some (.error failure)) : failure ∈ raised v := by
  cases v with
  | function name throws =>
    cases throws with
    | none => cases h
    | some failure' =>
      cases h
      exact List.mem_singleton_self failure
  | _ => cases h

theorem mem_raisedEntries {es : List (String × Thrown)} {e : String × Thrown} (he : e ∈ es)
    {failure : Thrown} (h : failure ∈ raised e.2) : failure ∈ raisedEntries es := by
  induction es with
  | nil => cases he
  | cons first es ih =>
    rcases List.mem_cons.mp he with rfl | he
    · exact List.mem_append_left _ h
    · exact List.mem_append_right _ (ih he)

/-- An object that fails to write itself has a function that fails. -/
theorem mem_raisedEntries_of_ownWriting? {es : List (String × Thrown)} {failure : Thrown}
    (h : Report.ownWriting? es = some (.error failure)) : failure ∈ raisedEntries es := by
  obtain ⟨e, he, hcalled⟩ := List.exists_of_findSome?_eq_some h
  split at hcalled
  · exact mem_raisedEntries he (mem_raised_of_called? hcalled)
  · cases hcalled

end Thrown

namespace Report
open Thrown

section
variable {P : Thrown → Prop}

section Graph
variable {expand : Seen → String → Written}

mutual

/-- A graph fails to be written as what is referred to does, as a function within does, or as the
platform does. -/
theorem graph_error (hfault : ∀ fault, P (.platform fault))
    (hexpand : ∀ seen label failure, expand seen label = .error failure → P failure)
    (seen : Seen) : (v : Thrown) → (∀ failure ∈ raised v, P failure) →
    ∀ failure, graph expand seen v = .error failure → P failure
  | .undefined, _, _, h | .null, _, _, h | .bool _, _, _, h | .number _, _, _, h
  | .string _, _, _, h | .symbol _, _, _, h | .function .., _, _, h | .error .., _, _, h => by
    cases h
  | .date instant, _, _, h => by cases instant <;> cases h
  | .bigint _, _, _, h => by
    cases h
    exact hfault .bigInteger
  | .reference label, _, failure, h => by
    rw [graph] at h
    split at h
    · cases h
    · exact hexpand seen label failure h
  | .object label entries, hv, failure, h => by
    rw [graph] at h
    cases hown : ownWriting? entries with
    | some outcome =>
      cases outcome with
      | ok => simp [hown, Except.map] at h
      | error raised =>
        simp only [hown, Except.map, Except.error.injEq] at h
        exact hv failure (mem_raisedEntries_of_ownWriting? (h ▸ hown))
    | none =>
      simp only [hown] at h
      split at h
      · cases h
      · rcases Result.bind_eq_error h with h | ⟨w, -, h⟩
        · exact graphMembers_error hfault hexpand (seen.add label) entries hv failure h
        · cases h
  | .array label items, hv, failure, h => by
    rw [graph] at h
    split at h
    · cases h
    · rcases Result.bind_eq_error h with h | ⟨w, -, h⟩
      · exact graphItems_error hfault hexpand (seen.add label) items hv failure h
      · cases h

theorem graphItems_error (hfault : ∀ fault, P (.platform fault))
    (hexpand : ∀ seen label failure, expand seen label = .error failure → P failure)
    (seen : Seen) : (vs : List Thrown) → (∀ failure ∈ raisedItems vs, P failure) →
    ∀ failure, graphItems expand seen vs = .error failure → P failure
  | [], _, _, h => by cases h
  | v :: vs, hvs, failure, h => by
    obtain ⟨hv, hvs⟩ := List.forall_mem_append.mp hvs
    rw [graphItems] at h
    rcases Result.bind_eq_error h with h | ⟨w, -, h⟩
    · exact graph_error hfault hexpand seen v hv failure h
    · rcases Result.bind_eq_error h with h | ⟨ws, -, h⟩
      · exact graphItems_error hfault hexpand w.2 vs hvs failure h
      · cases h

theorem graphMembers_error (hfault : ∀ fault, P (.platform fault))
    (hexpand : ∀ seen label failure, expand seen label = .error failure → P failure)
    (seen : Seen) : (es : List (String × Thrown)) → (∀ failure ∈ raisedEntries es, P failure) →
    ∀ failure, graphMembers expand seen es = .error failure → P failure
  | [], _, _, h => by cases h
  | (name, v) :: es, hes, failure, h => by
    obtain ⟨hv, hes⟩ := List.forall_mem_append.mp hes
    rw [graphMembers] at h
    rcases Result.bind_eq_error h with h | ⟨w, -, h⟩
    · exact graph_error hfault hexpand seen v hv failure h
    · rcases Result.bind_eq_error h with h | ⟨ws, -, h⟩
      · exact graphMembers_error hfault hexpand w.2 es hes failure h
      · obtain ⟨member, seen'⟩ := w
        cases member <;> cases h

end
end Graph

mutual

/-- What is labelled in a value fails as that does. -/
theorem labelled_raised : (v : Thrown) → (∀ failure ∈ raised v, P failure) →
    ∀ l ∈ labelled v, ∀ failure ∈ raised l.2, P failure
  | .undefined, _ | .null, _ | .bool _, _ | .number _, _ | .string _, _ | .symbol _, _
  | .function .., _ | .bigint _, _ | .date _, _ | .reference _, _ => nofun
  | .object label entries, h => by
    intro l hl
    rcases List.mem_append.mp hl with hl | hl
    · obtain ⟨name, -, rfl⟩ := Option.map_eq_some_iff.mp (Option.mem_toList.mp hl)
      exact h
    · exact labelledEntries_raised entries h l hl
  | .array label items, h => by
    intro l hl
    rcases List.mem_append.mp hl with hl | hl
    · obtain ⟨name, -, rfl⟩ := Option.map_eq_some_iff.mp (Option.mem_toList.mp hl)
      exact h
    · exact labelledItems_raised items h l hl
  | .error _ _ cause _ errors, h => by
    intro l hl
    obtain ⟨hcause, herrors⟩ := List.forall_mem_append.mp h
    rcases List.mem_append.mp hl with hl | hl
    · exact labelledCause_raised cause hcause l hl
    · exact labelledItems_raised errors herrors l hl

theorem labelledCause_raised : (cause : Option Thrown) →
    (∀ failure ∈ raisedCause cause, P failure) →
    ∀ l ∈ labelledCause cause, ∀ failure ∈ raised l.2, P failure
  | none, _ => nofun
  | some v, h => labelled_raised v h

theorem labelledItems_raised : (vs : List Thrown) →
    (∀ failure ∈ raisedItems vs, P failure) →
    ∀ l ∈ labelledItems vs, ∀ failure ∈ raised l.2, P failure
  | [], _ => nofun
  | v :: vs, h => by
    intro l hl
    obtain ⟨hv, hvs⟩ := List.forall_mem_append.mp h
    rcases List.mem_append.mp hl with hl | hl
    · exact labelled_raised v hv l hl
    · exact labelledItems_raised vs hvs l hl

theorem labelledEntries_raised : (es : List (String × Thrown)) →
    (∀ failure ∈ raisedEntries es, P failure) →
    ∀ l ∈ labelledEntries es, ∀ failure ∈ raised l.2, P failure
  | [], _ => nofun
  | (_, v) :: es, h => by
    intro l hl
    obtain ⟨hv, hes⟩ := List.forall_mem_append.mp h
    rcases List.mem_append.mp hl with hl | hl
    · exact labelled_raised v hv l hl
    · exact labelledEntries_raised es hes l hl

end

section Known
variable {known : Labelled} (hfault : ∀ fault, P (.platform fault))
  (hknown : ∀ l ∈ known, ∀ failure ∈ raised l.2, P failure)
include hfault hknown

theorem expansion_error (depth : Nat) (seen : Seen) (label : String) (failure : Thrown)
    (h : expansion known depth seen label = .error failure) : P failure := by
  induction depth generalizing seen label failure with
  | zero => cases h
  | succ depth ih =>
    simp only [expansion] at h
    cases hl : known.find? (fun l => l.1 = label) with
    | none =>
      rw [hl] at h
      cases h
    | some l =>
      rw [hl] at h
      exact graph_error hfault ih seen l.2 (hknown l (List.mem_of_find?_eq_some hl)) failure h

theorem serialise_error {v failure : Thrown} (hv : ∀ failure ∈ raised v, P failure)
    (h : serialise known v = .error failure) : P failure := by
  rcases Result.bind_eq_error h with h | ⟨⟨j, seen⟩, -, h⟩
  · exact graph_error hfault (expansion_error hfault hknown known.length) [] v hv failure h
  · cases j with
    | some j => cases h
    | none =>
      cases h
      exact hfault .documentText

/-- The report that has the document of a value fails as that does. -/
theorem tagged_error {v failure : Thrown} {type : String} (hv : ∀ failure ∈ raised v, P failure)
    (h : (do pure (tagged type [("value", ← serialise known v)]) : Result Json) =
      .error failure) : P failure := by
  rcases Result.bind_eq_error h with h | ⟨j, -, h⟩
  · exact serialise_error hfault hknown hv h
  · cases h

end Known

mutual

theorem describe_error {known : Labelled} (hfault : ∀ fault, P (.platform fault))
    (hknown : ∀ l ∈ known, ∀ failure ∈ raised l.2, P failure) :
    (v : Thrown) → (∀ failure ∈ raised v, P failure) →
    ∀ failure, describe known v = .error failure → P failure
  | .undefined, _, _, h | .null, _, _, h | .bool _, _, _, h | .number _, _, _, h
  | .string _, _, _, h | .symbol _, _, _, h | .function .., _, _, h | .bigint _, _, _, h => by
    cases h
  | .date instant, hv, failure, h => tagged_error hfault hknown hv h
  | .object label entries, hv, failure, h => tagged_error hfault hknown hv h
  | .array label items, hv, failure, h => tagged_error hfault hknown hv h
  | .reference label, _, failure, h => by
    simp only [describe] at h
    split at h
    · next l v hl =>
      exact tagged_error hfault hknown (hknown _ (List.mem_of_find?_eq_some hl)) h
    · cases h
  | .error kind message cause code errors, hv, failure, h => by
    obtain ⟨hcause, herrors⟩ := List.forall_mem_append.mp hv
    have hrest {f : Json.Members → Json}
        (h : (do pure (f (← describeCause known cause)) : Result Json) = .error failure) :
        P failure := by
      rcases Result.bind_eq_error h with h | ⟨caused, -, h⟩
      · exact describeCause_error hfault hknown cause hcause failure h
      · cases h
    rw [describe.eq_def] at h
    dsimp only at h
    split at h
    · rcases Result.bind_eq_error h with h | ⟨items, -, h⟩
      · exact describeItems_error hfault hknown errors herrors failure h
      · exact hrest h
    · exact hrest h

theorem describeCause_error {known : Labelled} (hfault : ∀ fault, P (.platform fault))
    (hknown : ∀ l ∈ known, ∀ failure ∈ raised l.2, P failure) :
    (cause : Option Thrown) → (∀ failure ∈ raisedCause cause, P failure) →
    ∀ failure, describeCause known cause = .error failure → P failure
  | none, _, _, h => by cases h
  | some v, hv, failure, h => by
    rw [describeCause.eq_def] at h
    split at h
    · cases h
    · cases h
    · next hsome =>
      obtain rfl := Option.some.inj hsome
      rcases Result.bind_eq_error h with h | ⟨j, -, h⟩
      · exact describe_error hfault hknown v hv failure h
      · cases h

theorem describeItems_error {known : Labelled} (hfault : ∀ fault, P (.platform fault))
    (hknown : ∀ l ∈ known, ∀ failure ∈ raised l.2, P failure) :
    (vs : List Thrown) → (∀ failure ∈ raisedItems vs, P failure) →
    ∀ failure, describeItems known vs = .error failure → P failure
  | [], _, _, h => by cases h
  | v :: vs, hvs, failure, h => by
    obtain ⟨hv, hvs⟩ := List.forall_mem_append.mp hvs
    rw [describeItems] at h
    rcases Result.bind_eq_error h with h | ⟨j, -, h⟩
    · exact describe_error hfault hknown v hv failure h
    · rcases Result.bind_eq_error h with h | ⟨js, -, h⟩
      · exact describeItems_error hfault hknown vs hvs failure h
      · cases h

end
end

/-- A report fails with a fault of the platform, or as a function within the value does. -/
theorem ofThrown_error {v failure : Thrown} (h : ofThrown v = .error failure) :
    (∃ fault, failure = .platform fault) ∨ failure ∈ v.raised := by
  let P (failure : Thrown) : Prop := (∃ fault, failure = .platform fault) ∨ failure ∈ v.raised
  have hfault (fault : PlatformFault) : P (.platform fault) := .inl ⟨fault, rfl⟩
  have hv : ∀ failure ∈ v.raised, P failure := fun _ hraised => .inr hraised
  exact describe_error hfault (labelled_raised v hv) v hv failure h

end Report
end Bearer
