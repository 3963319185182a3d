import Bearer.Log

namespace Bearer

namespace Thrown

mutual

/-- A report can tell the value, as a failure or within a graph. A big integer has a text
only outside of graphs, a reference only within; an object that writes itself is left out
of a graph if that does not fail, but cannot be all there is. -/
def isTellable (within : Bool) : Thrown → Bool
  | .bigint _ => !within
  | .reference _ => within
  | .object _ entries =>
    (match Report.ownWriting? entries with
      | none => true
      | some (.ok _) => within
      | some (.error _) => false) && entriesAreTellable entries
  | .array _ items => areTellable true items
  | .error _ _ cause _ errors => causeIsTellable within cause && areTellable within errors
  | _ => true

def causeIsTellable (within : Bool) : Option Thrown → Bool
  | none => true
  | some v => isTellable within v

def areTellable (within : Bool) : List Thrown → Bool
  | [] => true
  | v :: vs => isTellable within v && areTellable within vs

def entriesAreTellable : List (String × Thrown) → Bool
  | [] => true
  | (_, v) :: es => isTellable true v && entriesAreTellable es

end

theorem isTellable_object {within : Bool} {label : Option String}
    {entries : List (String × Thrown)} (h : (object label entries).isTellable within = true) :
    entriesAreTellable entries = true ∧
      (Report.ownWriting? entries = none ∨
        within = true ∧ Report.ownWriting? entries = some (.ok ())) := by
  obtain ⟨hown, hentries⟩ := Bool.and_eq_true_iff.mp h
  refine ⟨hentries, ?_⟩
  cases hwriting : Report.ownWriting? entries with
  | none => exact .inl rfl
  | some outcome =>
    rw [hwriting] at hown
    cases outcome with
    | ok => exact .inr ⟨hown, rfl⟩
    | error => cases hown

theorem isTellable_object_within {within : Bool} {label : Option String}
    {entries : List (String × Thrown)} (h : (object label entries).isTellable within = true) :
    (object label entries).isTellable true = true := by
  obtain ⟨hentries, hown | ⟨-, hown⟩⟩ := isTellable_object h <;> simp [isTellable, hown, hentries]

theorem areTellable_cons {within : Bool} {v : Thrown} {vs : List Thrown}
    (h : areTellable within (v :: vs) = true) :
    v.isTellable within = true ∧ areTellable within vs = true :=
  Bool.and_eq_true_iff.mp h

theorem entriesAreTellable_cons {name : String} {v : Thrown} {es : List (String × Thrown)}
    (h : entriesAreTellable ((name, v) :: es) = true) :
    v.isTellable true = true ∧ entriesAreTellable es = true :=
  Bool.and_eq_true_iff.mp h

end Thrown

namespace Report
open Thrown

section Graph
variable (expand : Seen → String → Written)

mutual

theorem graph_ok (hexpand : ∀ seen label, ∃ w, expand seen label = .ok w) (seen : Seen) :
    (v : Thrown) → v.isTellable true = true → ∃ w, graph expand seen v = .ok w
  | .undefined, _ | .null, _ | .bool _, _ | .number _, _ | .string _, _ | .symbol _, _
  | .function .., _ | .error .., _ => ⟨_, rfl⟩
  | .date instant, _ => by cases instant <;> exact ⟨_, rfl⟩
  | .reference label, _ => by
    simp only [graph]
    split
    · exact ⟨_, rfl⟩
    · exact hexpand seen label
  | .object label entries, h => by
    obtain ⟨hentries, hown | ⟨-, hown⟩⟩ := isTellable_object h
    · simp only [graph, hown]
      split
      · exact ⟨_, rfl⟩
      · obtain ⟨w, hw⟩ := graphMembers_ok hexpand (seen.add label) entries hentries
        exact ⟨_, by rw [hw]; rfl⟩
    · exact ⟨(none, seen), by simp only [graph, hown]; rfl⟩
  | .array label items, h => by
    simp only [graph]
    split
    · exact ⟨_, rfl⟩
    · obtain ⟨w, hw⟩ := graphItems_ok hexpand (seen.add label) items h
      exact ⟨_, by rw [hw]; rfl⟩

theorem graphItems_ok (hexpand : ∀ seen label, ∃ w, expand seen label = .ok w) (seen : Seen) :
    (vs : List Thrown) → areTellable true vs = true → ∃ w, graphItems expand seen vs = .ok w
  | [], _ => ⟨_, rfl⟩
  | v :: vs, h => by
    obtain ⟨hv, hvs⟩ := areTellable_cons h
    obtain ⟨w, hw⟩ := graph_ok hexpand seen v hv
    obtain ⟨ws, hws⟩ := graphItems_ok hexpand w.2 vs hvs
    exact ⟨(w.1.getD .null :: ws.1, ws.2), by simp [graphItems, hw, hws, bind, Except.bind]⟩

theorem graphMembers_ok (hexpand : ∀ seen label, ∃ w, expand seen label = .ok w)
    (seen : Seen) :
    (es : List (String × Thrown)) → entriesAreTellable es = true →
      ∃ w, graphMembers expand seen es = .ok w
  | [], _ => ⟨_, rfl⟩
  | (name, v) :: es, h => by
    obtain ⟨hv, hes⟩ := entriesAreTellable_cons h
    obtain ⟨w, hw⟩ := graph_ok hexpand seen v hv
    obtain ⟨ws, hws⟩ := graphMembers_ok hexpand w.2 es hes
    cases hm : w.1 with
    | none => exact ⟨ws, by simp [graphMembers, hw, hws, hm, bind, Except.bind]⟩
    | some j =>
      exact ⟨((name, j) :: ws.1, ws.2),
        by simp [graphMembers, hw, hws, hm, bind, Except.bind]⟩

end
end Graph

mutual

/-- Whatever is labelled in a tellable value is tellable where it is referred to. -/
theorem labelled_isTellable {within : Bool} : (v : Thrown) → v.isTellable within = true →
    ∀ l ∈ labelled v, l.2.isTellable true = true
  | .undefined, _ | .null, _ | .bool _, _ | .number _, _ | .string _, _ | .symbol _, _
  | .function .., _ | .bigint _, _ | .date _, _ | .reference _, _ => nofun
  | .object label entries, h => by
    intro l hl
    rcases List.mem_append.mp hl with hl | hl
    · obtain ⟨name, -, rfl⟩ := Option.map_eq_some_iff.mp (Option.mem_toList.mp hl)
      exact isTellable_object_within h
    · exact labelledEntries_isTellable entries (isTellable_object h).1 l hl
  | .array label items, h => by
    intro l hl
    rcases List.mem_append.mp hl with hl | hl
    · obtain ⟨name, -, rfl⟩ := Option.map_eq_some_iff.mp (Option.mem_toList.mp hl)
      exact h
    · exact labelledItems_isTellable items h l hl
  | .error _ _ cause _ errors, h => by
    intro l hl
    obtain ⟨hcause, herrors⟩ := Bool.and_eq_true_iff.mp h
    rcases List.mem_append.mp hl with hl | hl
    · exact labelledCause_isTellable cause hcause l hl
    · exact labelledItems_isTellable errors herrors l hl

theorem labelledCause_isTellable {within : Bool} : (cause : Option Thrown) →
    causeIsTellable within cause = true →
    ∀ l ∈ labelledCause cause, l.2.isTellable true = true
  | none, _ => nofun
  | some v, h => labelled_isTellable v h

theorem labelledItems_isTellable {within : Bool} : (vs : List Thrown) →
    areTellable within vs = true → ∀ l ∈ labelledItems vs, l.2.isTellable true = true
  | [], _ => nofun
  | v :: vs, h => by
    intro l hl
    obtain ⟨hv, hvs⟩ := areTellable_cons h
    rcases List.mem_append.mp hl with hl | hl
    · exact labelled_isTellable v hv l hl
    · exact labelledItems_isTellable vs hvs l hl

theorem labelledEntries_isTellable : (es : List (String × Thrown)) →
    entriesAreTellable es = true → ∀ l ∈ labelledEntries es, l.2.isTellable true = true
  | [], _ => nofun
  | (_, v) :: es, h => by
    intro l hl
    obtain ⟨hv, hes⟩ := entriesAreTellable_cons h
    rcases List.mem_append.mp hl with hl | hl
    · exact labelled_isTellable v hv l hl
    · exact labelledEntries_isTellable es hes l hl

end

section Known
variable {known : Labelled} (hknown : ∀ l ∈ known, l.2.isTellable true = true)
include hknown

theorem expansion_ok (depth : Nat) (seen : Seen) (label : String) :
    ∃ w, expansion known depth seen label = .ok w := by
  induction depth generalizing seen label with
  | zero => exact ⟨_, rfl⟩
  | succ depth ih =>
    simp only [expansion]
    cases hl : known.find? (fun l => l.1 = label) with
    | none => exact ⟨_, rfl⟩
    | some l => exact graph_ok _ ih seen l.2 (hknown l (List.mem_of_find?_eq_some hl))

theorem serialise_object_ok (label : Option String) {entries : List (String × Thrown)}
    (hself : ownWriting? entries = none) (h : entriesAreTellable entries = true) :
    ∃ j, serialise known (.object label entries) = .ok j := by
  have hseen : Seen.knows [] label = false := by cases label <;> rfl
  obtain ⟨w, hw⟩ := graphMembers_ok _ (expansion_ok hknown known.length) (Seen.add [] label)
    entries h
  exact ⟨.object w.1, by simp [serialise, graph, hself, hseen, hw, bind, Except.bind]⟩

theorem serialise_array_ok (label : Option String) {items : List Thrown}
    (h : areTellable true items = true) : ∃ j, serialise known (.array label items) = .ok j := by
  have hseen : Seen.knows [] label = false := by cases label <;> rfl
  obtain ⟨w, hw⟩ := graphItems_ok _ (expansion_ok hknown known.length) (Seen.add [] label) items h
  exact ⟨.array w.1, by simp [serialise, graph, hseen, hw, bind, Except.bind]⟩

end Known

mutual

theorem describe_ok {known : Labelled} (hknown : ∀ l ∈ known, l.2.isTellable true = true) :
    (v : Thrown) → v.isTellable false = true → ∃ j, describe known v = .ok j
  | .undefined, _ | .null, _ | .bool _, _ | .number _, _ | .string _, _ | .symbol _, _
  | .function .., _ | .bigint _, _ => ⟨_, rfl⟩
  | .date instant, _ => by cases instant <;> exact ⟨_, rfl⟩
  | .reference _, h => by cases h
  | .object label entries, h => by
    obtain ⟨hentries, hown | ⟨hfalse, -⟩⟩ := isTellable_object h
    · obtain ⟨j, hj⟩ := serialise_object_ok hknown label hown hentries
      exact ⟨_, by rw [describe, hj]; rfl⟩
    · cases hfalse
  | .array label items, h => by
    obtain ⟨j, hj⟩ := serialise_array_ok hknown label h
    exact ⟨_, by rw [describe, hj]; rfl⟩
  | .error kind message cause code errors, h => by
    obtain ⟨hcause, herrors⟩ := Bool.and_eq_true_iff.mp h
    obtain ⟨caused, hcaused⟩ := describeCause_ok hknown cause hcause
    obtain ⟨several, hseveral⟩ := describeItems_ok hknown errors herrors
    cases kind <;>
      exact ⟨_, by simp [describe, hcaused, hseveral, bind, Except.bind, pure, Except.pure]; rfl⟩

theorem describeCause_ok {known : Labelled}
    (hknown : ∀ l ∈ known, l.2.isTellable true = true) :
    (cause : Option Thrown) → causeIsTellable false cause = true →
      ∃ members, describeCause known cause = .ok members
  | none, _ => ⟨_, rfl⟩
  | some v, h => by
    obtain ⟨j, hj⟩ := describe_ok hknown v h
    cases v <;> exact ⟨_, by simp [describeCause, hj, bind, Except.bind, pure, Except.pure]; rfl⟩

theorem describeItems_ok {known : Labelled}
    (hknown : ∀ l ∈ known, l.2.isTellable true = true) :
    (vs : List Thrown) → areTellable false vs = true →
      ∃ items, describeItems known vs = .ok items
  | [], _ => ⟨_, rfl⟩
  | v :: vs, h => by
    obtain ⟨hv, hvs⟩ := areTellable_cons h
    obtain ⟨j, hj⟩ := describe_ok hknown v hv
    obtain ⟨js, hjs⟩ := describeItems_ok hknown vs hvs
    exact ⟨_, by rw [describeItems, hj, hjs]; rfl⟩

end

/-- Every tellable failure has a report. -/
theorem ofThrown_ok {v : Thrown} (h : v.isTellable false = true) : ∃ j, ofThrown v = .ok j :=
  describe_ok (labelled_isTellable v h) v h

end Report

theorem Log.warning_ok (message : String) {v : Thrown} (h : v.isTellable false = true) :
    ∃ entry, Log.warning message v = .ok entry := by
  obtain ⟨j, hj⟩ := Report.ofThrown_ok h
  exact ⟨_, by rw [Log.warning, hj]; rfl⟩

end Bearer
