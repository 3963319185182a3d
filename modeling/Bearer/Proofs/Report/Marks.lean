import Bearer.Proofs.Report.Places

namespace Bearer

namespace Json

/-- A place in one of some documents, each of which has its number. -/
def among? (js : List Json) : Place → Option Json
  | [] => none
  | i :: p => (js[i]?).bind fun k => k.at? p

end Json

namespace Thrown

def among? (known : Report.Labelled) (vs : List Thrown) : Place → Option Thrown
  | [] => none
  | i :: p => (vs[i]?).bind fun w => w.at? known p

end Thrown

namespace Report

/-- The document is written of the graph after something has been seen already, and all that has
been seen is known afterwards. -/
structure Covers (graph : Place → Option Thrown) (doc : Place → Option Json)
    (seen seen' : Seen) : Prop where
  marked : Marked (· < ·) graph doc seen
  seen : ∀ label, label ∈ seen' ↔ label ∈ seen ∨ Met graph doc (fun _ => True) label

variable {known : Labelled} {seen seen₁ seen₂ : Seen}

theorem covers_nil : Covers (Thrown.among? known []) (Json.among? []) seen seen where
  marked p k hk := by cases p <;> cases hk
  seen label := by
    refine ⟨.inl, ?_⟩
    rintro (h | ⟨p, -, hp, -⟩)
    · exact h
    · cases p <;> cases hp

section
variable {v : Thrown} {j : Json} {vs : List Thrown} {js : List Json}

/-- What is met in a list is met in its first value or in the others. -/
theorem met_cons {such : Place → Prop} {label : String} :
    Met (Thrown.among? known (v :: vs)) (Json.among? (j :: js)) such label ↔
      Met (v.at? known) j.at? (fun q => such (0 :: q)) label ∨
        Met (Thrown.among? known vs) (Json.among? js) (fun q => such q.next) label := by
  constructor
  · rintro ⟨q, hsuch, hq, hlabel⟩
    cases q with
    | nil => cases hq
    | cons n q =>
      cases n with
      | zero => exact .inl ⟨q, hsuch, hq, hlabel⟩
      | succ n => exact .inr ⟨n :: q, hsuch, hq, hlabel⟩
  · rintro (⟨q, hsuch, hq, hlabel⟩ | ⟨q, hsuch, hq, hlabel⟩)
    · exact ⟨0 :: q, hsuch, hq, hlabel⟩
    · cases q with
      | nil => cases hq
      | cons n q => exact ⟨(n + 1) :: q, hsuch, hq, hlabel⟩

/-- What was written first has been seen by what is written next. -/
theorem Covers.cons (hv : Covers (v.at? known) j.at? seen seen₁)
    (hvs : Covers (Thrown.among? known vs) (Json.among? js) seen₁ seen₂) :
    Covers (Thrown.among? known (v :: vs)) (Json.among? (j :: js)) seen seen₂ where
  marked p := by
    cases p with
    | nil => exact nofun
    | cons i p =>
      cases i with
      | zero =>
        refine (hv.marked p).congr rfl rfl fun label => or_congr_right ?_
        rw [met_cons]
        constructor
        · rintro (⟨q, hlt, hq⟩ | ⟨q, hlt, hq, -⟩)
          · exact ⟨q, ((Place.cons_lt_cons.mp hlt).resolve_left (Nat.lt_irrefl 0)).2, hq⟩
          · cases q with
            | nil => cases hq
            | cons n q => rcases Place.cons_lt_cons.mp hlt with h | ⟨h, -⟩ <;> cases h
        · rintro ⟨q, hlt, hq⟩
          exact .inl ⟨q, Place.cons_lt_cons.mpr (.inr ⟨rfl, hlt⟩), hq⟩
      | succ i =>
        refine (hvs.marked (i :: p)).congr rfl rfl fun label => ?_
        have hfirst : (fun q : Place => (0 :: q : Place) < (i + 1) :: p) = fun _ => True :=
          funext fun q => eq_true (Place.cons_lt_cons.mpr (.inl i.succ_pos))
        have hnext : (fun q : Place => q.next < (i + 1) :: p) = fun q => q < (i :: p : Place) :=
          funext fun q => propext Place.next_lt_next
        rw [Known, met_cons, hfirst, hnext, Known, hv.seen label, or_assoc]
  seen label := by rw [hvs.seen label, hv.seen label, met_cons, or_assoc]

end

variable {v c : Thrown} {k : Json}

theorem Seen.mem_add {label : Option String} {l : String} :
    l ∈ seen.add label ↔ l ∈ seen ∨ label = some l := by
  cases label with
  | none => simp [Seen.add]
  | some l' => simp [Seen.add, or_comm, eq_comm]

/-- Only the root can stand at the root of what has no children. -/
theorem isSome_of_childless (h : k.children = []) {p : Place} (hp : (k.at? p).isSome = true) :
    p = [] := by
  cases p with
  | nil => rfl
  | cons i p =>
    rw [Json.at?, h] at hp
    cases hp

theorem leads_root (hv : v.resolved? known = some c) {label : String} :
    Leads (v.at? known) [] label ↔ c.label? = some label := by
  constructor
  · rintro ⟨c', hc', hlabel⟩
    obtain rfl : c = c' := Option.some.inj (hv.symm.trans hc')
    exact hlabel
  · exact fun hlabel => ⟨c, hv, hlabel⟩

theorem at?_below (hv : v.resolved? known = some c) (i : Nat) (p : Place) :
    v.at? known (i :: p) = Thrown.among? known c.children (i :: p) := by
  rw [Thrown.at?, hv]
  rfl

/-- What is met in an object or a list is itself or is met in what it holds. -/
theorem met_container (hv : v.resolved? known = some c) {such : Place → Prop} {label : String} :
    Met (v.at? known) k.at? such label ↔ such [] ∧ c.label? = some label ∨
      Met (Thrown.among? known c.children) (Json.among? k.children) such label := by
  constructor
  · rintro ⟨q, hsuch, hq, hlabel⟩
    cases q with
    | nil => exact .inl ⟨hsuch, (leads_root hv).mp hlabel⟩
    | cons n q =>
      rw [Leads, at?_below hv] at hlabel
      exact .inr ⟨n :: q, hsuch, hq, hlabel⟩
  · rintro (⟨hsuch, hlabel⟩ | ⟨q, hsuch, hq, hlabel⟩)
    · exact ⟨[], hsuch, rfl, (leads_root hv).mpr hlabel⟩
    · cases q with
      | nil => cases hq
      | cons n q =>
        rw [Leads, ← at?_below hv] at hlabel
        exact ⟨n :: q, hsuch, hq, hlabel⟩

/-- Of what is written without anything below it, only the root can be met. -/
theorem met_childless (hv : v.resolved? known = some c) (hk : k.children = [])
    {such : Place → Prop} {label : String} :
    Met (v.at? known) k.at? such label ↔ such [] ∧ c.label? = some label := by
  rw [met_container hv, hk, or_iff_left]
  rintro ⟨q, -, hq, -⟩
  cases q <;> cases hq

/-- What is neither an object nor a list is written as it is. -/
theorem covers_plain (hv : v.resolved? known = some v) (hlabel : v.label? = none)
    (h : Reproduces v k) (hk : k.children = []) : Covers (v.at? known) k.at? seen seen where
  marked p k' hk' := by
    obtain rfl := isSome_of_childless hk (by rw [hk']; rfl)
    obtain rfl : k = k' := Option.some.inj hk'
    refine ⟨v, hv, ?_, fun _ => h⟩
    rintro ⟨label, hroot, -⟩
    rw [leads_root hv, hlabel] at hroot
    cases hroot
  seen label := by
    rw [met_childless hv hk, hlabel]
    simp

/-- What has been seen is marked. -/
theorem covers_mark {label : String} (hv : v.resolved? known = some c)
    (hlabel : c.label? = some label) (hseen : label ∈ seen) :
    Covers (v.at? known) (Json.string circularMark).at? seen seen where
  marked p k hk := by
    obtain rfl := isSome_of_childless rfl (by rw [hk]; rfl)
    obtain rfl := Option.some.inj hk
    exact ⟨c, hv, fun _ => rfl, fun hnone =>
      absurd ⟨label, (leads_root hv).mpr hlabel, .inl hseen⟩ hnone⟩
  seen label' := by
    rw [met_childless hv rfl, hlabel]
    refine ⟨.inl, ?_⟩
    rintro (hseen' | ⟨-, hsame⟩)
    · exact hseen'
    · exact Option.some.inj hsame ▸ hseen

/-- What has not been seen is written, and has been seen by what it holds. -/
theorem covers_container (hv : v.resolved? known = some c)
    (hnew : seen.knows c.label? = false) (h : Reproduces c k)
    (hchildren : Covers (Thrown.among? known c.children) (Json.among? k.children)
      (seen.add c.label?) seen₁) : Covers (v.at? known) k.at? seen seen₁ where
  marked p := by
    cases p with
    | nil =>
      intro k' hk'
      obtain rfl : k = k' := Option.some.inj hk'
      refine ⟨c, hv, ?_, fun _ => h⟩
      rintro ⟨label, hroot, hseen | ⟨q, hlt, -⟩⟩
      · rw [(leads_root hv).mp hroot, Seen.knows, List.contains_eq_mem,
          decide_eq_false_iff_not] at hnew
        exact absurd hseen hnew
      · exact absurd hlt (List.not_lt_nil q)
    | cons i p =>
      have hroot : ([] : Place) < i :: p := List.nil_lt_cons i p
      refine (hchildren.marked (i :: p)).congr (at?_below hv i p) rfl fun label => ?_
      rw [Known, met_container hv, Known, Seen.mem_add, or_assoc]
      simp only [hroot, true_and]
  seen label := by
    rw [hchildren.seen label, Seen.mem_add, met_container hv, or_assoc, true_and]

end Report

namespace Thrown

mutual

/-- Made of objects, lists and what documents are made of, with known labels in references. -/
def isPlain (known : Report.Labelled) : Thrown → Bool
  | .null | .bool _ | .string _ | .number (.finite _) => true
  | .object _ entries => entriesArePlain known entries
  | .array _ items => arePlain known items
  | .reference label => known.any fun l => l.1 = label
  | _ => false

def arePlain (known : Report.Labelled) : List Thrown → Bool
  | [] => true
  | v :: vs => isPlain known v && arePlain known vs

def entriesArePlain (known : Report.Labelled) : List (String × Thrown) → Bool
  | [] => true
  | (_, v) :: es => isPlain known v && entriesArePlain known es

end

/-- An object or a list, plain all the way down, that labels all it refers to. -/
def isGraph (v : Thrown) : Bool :=
  match v with
  | .object .. | .array .. => v.isPlain (Report.labelled v)
  | _ => false

variable {known : Report.Labelled}

theorem isPlain_of_mem_entries {entries : List (String × Thrown)}
    (h : entriesArePlain known entries = true) : ∀ e ∈ entries, e.2.isPlain known = true := by
  induction entries with
  | nil => exact nofun
  | cons e es ih =>
    obtain ⟨he, hes⟩ := Bool.and_eq_true_iff.mp h
    exact List.forall_mem_cons.mpr ⟨he, ih hes⟩

end Thrown

namespace Report
open Thrown

variable {known : Labelled}

theorem ownWriting?_of_plain {entries : List (String × Thrown)}
    (h : entriesArePlain known entries = true) : ownWriting? entries = none := by
  refine List.findSome?_eq_none_iff.mpr fun e he => ?_
  have hplain := isPlain_of_mem_entries h e he
  obtain ⟨name, v⟩ := e
  cases v with
  | function => cases hplain
  | _ => simp [called?]

mutual

/-- Labels stand for plain objects and lists of that label. -/
theorem labelled_plain : (v : Thrown) → v.isPlain known = true →
    ∀ l ∈ labelled v, l.2.label? = some l.1 ∧ l.2.isPlain known = true
  | .undefined, _ | .null, _ | .bool _, _ | .number _, _ | .string _, _ | .symbol _, _
  | .function .., _ | .bigint _, _ | .date _, _ | .reference _, _ => nofun
  | .error .., h => by cases h
  | .object label entries, h => by
    intro l hl
    rcases List.mem_append.mp hl with hl | hl
    · obtain ⟨name, hname, rfl⟩ := Option.map_eq_some_iff.mp (Option.mem_toList.mp hl)
      exact ⟨hname, h⟩
    · exact labelledEntries_plain entries h l hl
  | .array label items, h => by
    intro l hl
    rcases List.mem_append.mp hl with hl | hl
    · obtain ⟨name, hname, rfl⟩ := Option.map_eq_some_iff.mp (Option.mem_toList.mp hl)
      exact ⟨hname, h⟩
    · exact labelledItems_plain items h l hl

theorem labelledItems_plain : (vs : List Thrown) → arePlain known vs = true →
    ∀ l ∈ labelledItems vs, l.2.label? = some l.1 ∧ l.2.isPlain known = true
  | [], _ => nofun
  | v :: vs, h => by
    intro l hl
    obtain ⟨hv, hvs⟩ := Bool.and_eq_true_iff.mp h
    rcases List.mem_append.mp hl with hl | hl
    · exact labelled_plain v hv l hl
    · exact labelledItems_plain vs hvs l hl

theorem labelledEntries_plain : (es : List (String × Thrown)) →
    entriesArePlain known es = true →
    ∀ l ∈ labelledEntries es, l.2.label? = some l.1 ∧ l.2.isPlain known = true
  | [], _ => nofun
  | (_, v) :: es, h => by
    intro l hl
    obtain ⟨hv, hes⟩ := Bool.and_eq_true_iff.mp h
    rcases List.mem_append.mp hl with hl | hl
    · exact labelled_plain v hv l hl
    · exact labelledEntries_plain es hes l hl

end

/-- How many labels have not been seen. -/
def unseen (known : Labelled) (seen : Seen) : Nat :=
  (known.filter fun l => !seen.contains l.1).length

theorem unseen_le {seen seen' : Seen} (h : ∀ label ∈ seen, label ∈ seen') :
    unseen known seen' ≤ unseen known seen := by
  refine (List.monotone_filter_right known fun l hl => ?_).length_le
  simp only [List.contains_eq_mem, Bool.not_eq_true', decide_eq_false_iff_not] at hl ⊢
  exact fun hseen => hl (h l.1 hseen)

/-- One label less is unseen once it has been seen. -/
theorem unseen_add_lt {seen : Seen} {label : String} (hknown : ∃ l ∈ known, l.1 = label)
    (hnew : label ∉ seen) : unseen known (label :: seen) < unseen known seen := by
  obtain ⟨l, hl, rfl⟩ := hknown
  have hfilter : (known.filter fun e => !(l.1 :: seen).contains e.1) =
      (known.filter fun e => !seen.contains e.1).filter fun e => e.1 ≠ l.1 := by
    rw [List.filter_filter]
    congr 1
    funext e
    simp [eq_comm]
  rw [unseen, hfilter]
  refine List.length_filter_lt_length_iff_exists.mpr ⟨l, List.mem_filter.mpr ⟨hl, ?_⟩, by simp⟩
  simpa using hnew

/-- Labels lead to plain objects and lists of that label. -/
def LeadsOn (known : Labelled) : Prop :=
  ∀ l ∈ known, l.2.label? = some l.1 ∧ l.2.isPlain known = true

theorem LeadsOn.find (h : LeadsOn known) {label : String} (hknown : ∃ l ∈ known, l.1 = label) :
    ∃ c, known.find? (fun l => l.1 = label) = some (label, c) ∧ c.label? = some label ∧
      c.isPlain known = true := by
  obtain ⟨⟨name, c⟩, hfind⟩ : ∃ l, known.find? (fun l => l.1 = label) = some l := by
    obtain ⟨l, hl, hlabel⟩ := hknown
    exact Option.isSome_iff_exists.mp (List.find?_isSome.mpr ⟨l, hl, decide_eq_true hlabel⟩)
  obtain rfl : name = label := by simpa using List.find?_some hfind
  exact ⟨c, hfind, h _ (List.mem_of_find?_eq_some hfind)⟩

/-- The value is written after something has been seen already. -/
def Tells (known : Labelled) (seen : Seen) (v : Thrown) (w : Written) : Prop :=
  ∃ k seen', w = .ok (some k, seen') ∧ Covers (v.at? known) k.at? seen seen'

def TellsItems (known : Labelled) (seen : Seen) (vs : List Thrown)
    (w : Result (List Json × Seen)) : Prop :=
  ∃ ks seen', w = .ok (ks, seen') ∧ ks.length = vs.length ∧
    Covers (among? known vs) (Json.among? ks) seen seen'

def TellsMembers (known : Labelled) (seen : Seen) (es : List (String × Thrown))
    (w : Result (Json.Members × Seen)) : Prop :=
  ∃ ms seen', w = .ok (ms, seen') ∧ ms.map Prod.fst = es.map Prod.fst ∧
    Covers (among? known (es.map Prod.snd)) (Json.among? (ms.map Prod.snd)) seen seen'

section
variable {expand : Seen → String → Written} {seen : Seen} {v : Thrown} {label : Option String}

theorem tells_mark {c : Thrown} {l : String} (hv : v.resolved? known = some c)
    (hlabel : c.label? = some l) (hseen : l ∈ seen) :
    Tells known seen v (.ok (some (.string circularMark), seen)) :=
  ⟨_, seen, rfl, covers_mark hv hlabel hseen⟩

theorem Seen.knows_eq_true {label : Option String} (h : seen.knows label = true) :
    ∃ l, label = some l ∧ l ∈ seen := by
  cases label with
  | none => cases h
  | some l => exact ⟨l, rfl, by simpa [Seen.knows] using h⟩

theorem graph_object {entries : List (String × Thrown)}
    (hv : v.resolved? known = some (.object label entries))
    (hplain : entriesArePlain known entries = true)
    (h : seen.knows label = false → TellsMembers known (seen.add label) entries
      (graphMembers expand (seen.add label) entries)) :
    Tells known seen v (graph expand seen (.object label entries)) := by
  simp only [graph, ownWriting?_of_plain hplain]
  cases hknows : seen.knows label with
  | true =>
    obtain ⟨l, hlabel, hseen⟩ := Seen.knows_eq_true hknows
    exact tells_mark hv hlabel hseen
  | false =>
    obtain ⟨ms, seen', hms, hnames, hcovers⟩ := h hknows
    rw [hms]
    exact ⟨.object ms, seen', rfl, covers_container hv hknows hnames hcovers⟩

theorem graph_array {items : List Thrown} (hv : v.resolved? known = some (.array label items))
    (h : seen.knows label = false → TellsItems known (seen.add label) items
      (graphItems expand (seen.add label) items)) :
    Tells known seen v (graph expand seen (.array label items)) := by
  rw [graph]
  cases hknows : seen.knows label with
  | true =>
    obtain ⟨l, hlabel, hseen⟩ := Seen.knows_eq_true hknows
    exact tells_mark hv hlabel hseen
  | false =>
    obtain ⟨ks, seen', hks, hlength, hcovers⟩ := h hknows
    rw [hks]
    exact ⟨.array ks, seen', rfl, covers_container hv hknows hlength hcovers⟩

end

/-- What labels lead to is written so, up to some number of labels that have not been seen. -/
def Expands (known : Labelled) (expand : Seen → String → Written) (fuel : Nat) : Prop :=
  ∀ seen label, (∃ l ∈ known, l.1 = label) → label ∉ seen → unseen known seen ≤ fuel →
    Tells known seen (.reference label) (expand seen label)

section
variable {expand : Seen → String → Written} {fuel : Nat}

mutual

theorem graph_tells (hknown : LeadsOn known) (hexpand : Expands known expand fuel) {seen : Seen}
    (hfuel : unseen known seen ≤ fuel) :
    (v : Thrown) → v.isPlain known = true → Tells known seen v (graph expand seen v)
  | .null, _ => ⟨.null, seen, rfl, covers_plain rfl rfl trivial rfl⟩
  | .bool b, _ => ⟨.bool b, seen, rfl, covers_plain rfl rfl rfl rfl⟩
  | .number (.finite x), _ => ⟨.number (.finite x), seen, rfl, covers_plain rfl rfl rfl rfl⟩
  | .string s, _ => ⟨.string s, seen, rfl, covers_plain rfl rfl rfl rfl⟩
  | .undefined, h | .symbol _, h | .function .., h | .bigint _, h | .date _, h
  | .number .nan, h | .number (.infinite _), h | .error .., h => by cases h
  | .reference label, h => by
    have hlabel : ∃ l ∈ known, l.1 = label := by simpa [isPlain] using h
    rw [graph]
    split
    · next hseen =>
      obtain ⟨c, hfind, hcontainer, -⟩ := hknown.find hlabel
      exact tells_mark (congrArg (Option.map Prod.snd) hfind) hcontainer (by simpa using hseen)
    · next hnew => exact hexpand seen label hlabel (by simpa using hnew) hfuel
  | .object label entries, h => by
    refine graph_object rfl h fun _ => graphMembers_tells hknown hexpand ?_ entries h
    exact Nat.le_trans (unseen_le fun l hl => Seen.mem_add.mpr (.inl hl)) hfuel
  | .array label items, h => by
    refine graph_array rfl fun _ => graphItems_tells hknown hexpand ?_ items h
    exact Nat.le_trans (unseen_le fun l hl => Seen.mem_add.mpr (.inl hl)) hfuel

theorem graphItems_tells (hknown : LeadsOn known) (hexpand : Expands known expand fuel)
    {seen : Seen} (hfuel : unseen known seen ≤ fuel) :
    (vs : List Thrown) → arePlain known vs = true →
      TellsItems known seen vs (graphItems expand seen vs)
  | [], _ => ⟨[], seen, rfl, rfl, covers_nil⟩
  | v :: vs, h => by
    obtain ⟨hv, hvs⟩ := Bool.and_eq_true_iff.mp h
    obtain ⟨k, seen₁, hk, hcovers⟩ := graph_tells hknown hexpand hfuel v hv
    have hfuel₁ : unseen known seen₁ ≤ fuel :=
      Nat.le_trans (unseen_le fun l hl => (hcovers.seen l).mpr (.inl hl)) hfuel
    obtain ⟨ks, seen₂, hks, hlength, hrest⟩ := graphItems_tells hknown hexpand hfuel₁ vs hvs
    refine ⟨k :: ks, seen₂, ?_, congrArg (· + 1) hlength, hcovers.cons hrest⟩
    simp [graphItems, hk, hks, bind, Except.bind]

theorem graphMembers_tells (hknown : LeadsOn known) (hexpand : Expands known expand fuel)
    {seen : Seen} (hfuel : unseen known seen ≤ fuel) :
    (es : List (String × Thrown)) → entriesArePlain known es = true →
      TellsMembers known seen es (graphMembers expand seen es)
  | [], _ => ⟨[], seen, rfl, rfl, covers_nil⟩
  | (name, v) :: es, h => by
    obtain ⟨hv, hes⟩ := Bool.and_eq_true_iff.mp h
    obtain ⟨k, seen₁, hk, hcovers⟩ := graph_tells hknown hexpand hfuel v hv
    have hfuel₁ : unseen known seen₁ ≤ fuel :=
      Nat.le_trans (unseen_le fun l hl => (hcovers.seen l).mpr (.inl hl)) hfuel
    obtain ⟨ms, seen₂, hms, hnames, hrest⟩ := graphMembers_tells hknown hexpand hfuel₁ es hes
    refine ⟨(name, k) :: ms, seen₂, ?_, congrArg (name :: ·) hnames, hcovers.cons hrest⟩
    simp [graphMembers, hk, hms, bind, Except.bind]

end
end

/-- The deepest expansion that can be needed is one for each label that has not been seen. -/
theorem expansion_expands (hknown : LeadsOn known) (fuel : Nat) :
    Expands known (expansion known fuel) fuel := by
  induction fuel with
  | zero =>
    intro seen label hlabel hnew hfuel
    have hless := unseen_add_lt hlabel hnew
    omega
  | succ fuel ih =>
    intro seen label hlabel hnew hfuel
    obtain ⟨c, hfind, hcontainer, hplain⟩ := hknown.find hlabel
    have hresolved : (Thrown.reference label).resolved? known = some c :=
      congrArg (Option.map Prod.snd) hfind
    have hless := unseen_add_lt hlabel hnew
    have hfuel' : unseen known (label :: seen) ≤ fuel := by omega
    rw [expansion, hfind]
    show Tells known seen _ (graph (expansion known fuel) seen c)
    cases c with
    | object own entries =>
      obtain rfl : own = some label := hcontainer
      exact graph_object hresolved hplain fun _ =>
        graphMembers_tells hknown ih hfuel' entries hplain
    | array own items =>
      obtain rfl : own = some label := hcontainer
      exact graph_array hresolved fun _ => graphItems_tells hknown ih hfuel' items hplain
    | _ => cases hcontainer

def containerType : Thrown → String
  | .array .. => "array"
  | _ => "object"

theorem ofThrown_of_isGraph {v : Thrown} (h : v.isGraph = true) :
    ∃ j, ofThrown v = .ok (tagged (containerType v) [("value", j)]) ∧
      MarksRepeats (· < ·) v j := by
  have hplain : v.isPlain (labelled v) = true := by
    cases v with
    | object => exact h
    | array => exact h
    | _ => cases h
  have hknown : LeadsOn (labelled v) := labelled_plain v hplain
  have hfuel : unseen (labelled v) [] ≤ (labelled v).length := List.length_filter_le _ _
  obtain ⟨j, seen, hj, hcovers⟩ :=
    graph_tells hknown (expansion_expands hknown _) hfuel v hplain
  have hserialise : serialise (labelled v) v = .ok j := by rw [serialise, hj]; rfl
  refine ⟨j, ?_, hcovers.marked⟩
  cases v with
  | object => rw [ofThrown, describe, hserialise]; rfl
  | array => rw [ofThrown, describe, hserialise]; rfl
  | _ => cases h

/-- Every graph of plain objects and lists has a report. It reproduces each object and list where
that comes first, in the order of the document, and has a mark wherever one comes again. So it marks
just what leads back to something above, and reproduces all else, if and only if only one direct way
leads to each object and list; and of a graph without circles it is a copy on the same condition.
Circles alone are told as they are, but what is shared is taken for a circle. -/
theorem graph_repeats_marked {v : Thrown} (h : v.isGraph = true) :
    ∃ j, ofThrown v = .ok (tagged (containerType v) [("value", j)]) ∧
      MarksRepeats (· < ·) v j ∧
      (MarksRepeats Place.Above v j ↔ Unshared (v.at? (labelled v))) ∧
      (Acyclic (v.at? (labelled v)) → (Copies v j ↔ Unshared (v.at? (labelled v)))) := by
  obtain ⟨j, hj, hmarks⟩ := ofThrown_of_isGraph h
  exact ⟨j, hj, hmarks, hmarks.above_iff, fun hacyclic =>
    hacyclic.copies_iff.symm.trans hmarks.above_iff⟩

/-- A circle, and a part that occurs twice. -/
def loop : Thrown :=
  .object (some "root")
    [("message", .string "loop"), ("self", .reference "root"),
     ("part", .object (some "part") []), ("again", .reference "part")]

theorem graph_repeats_marked_loop :
    loop.isGraph = true ∧
    MarksRepeats (· < ·) loop (.object
      [("message", .string "loop"), ("self", .string circularMark), ("part", .object []),
       ("again", .string circularMark)]) := by
  have hgraph : loop.isGraph = true := by decide
  obtain ⟨j, hj, hmarks, -⟩ := graph_repeats_marked hgraph
  have hreport : ofThrown loop = .ok (tagged "object" [("value", .object
      [("message", .string "loop"), ("self", .string circularMark), ("part", .object []),
       ("again", .string circularMark)])]) := by rfl
  have hsame := Except.ok.inj (hj.symm.trans hreport)
  simp only [tagged, Json.object.injEq, List.cons.injEq, Prod.mk.injEq] at hsame
  exact ⟨hgraph, hsame.2.1.2 ▸ hmarks⟩

/-- A part that occurs twice, and no circle. -/
def twice : Thrown :=
  .object none [("a", .object (some "part") []), ("b", .reference "part")]

/-- Where the part occurs again the report has a mark, though nothing above is that part. -/
theorem shared_part_marked :
    twice.isGraph = true ∧
    ofThrown twice = .ok (tagged "object" [("value",
      .object [("a", .object []), ("b", .string circularMark)])]) ∧
    ¬ MarksRepeats Place.Above twice
      (.object [("a", .object []), ("b", .string circularMark)]) := by
  refine ⟨by decide, by rfl, fun h => ?_⟩
  obtain ⟨c, hc, -, hreproduces⟩ := h [1] (.string circularMark) rfl
  obtain rfl : Thrown.object (some "part") [] = c := Option.some.inj hc
  refine hreproduces ?_
  rintro ⟨label, -, hseen | ⟨q, ⟨hq, hne⟩, -, c, hc, hlabel⟩⟩
  · cases hseen
  · obtain rfl : q = [] := by
      rcases List.prefix_concat_iff.mp (show q <+: [] ++ [1] from hq) with heq | hnil
      · exact absurd heq hne
      · exact List.prefix_nil.mp hnil
    obtain rfl : twice = c := Option.some.inj hc
    cases hlabel

end Report
end Bearer
