import Bearer.Error.Report
import Mathlib.Data.List.Infix
import Mathlib.Order.Lattice.Nat
import Mathlib.Data.List.Lex

namespace Bearer

/-- A way down from the root: which of its children to take, step by step. -/
abbrev Place := List Nat

def Place.Above (q p : Place) : Prop := q <+: p ∧ q ≠ p

namespace Json

/-- What a document holds, in the order in which it is written. -/
def children : Json → List Json
  | array items => items
  | object members => members.map Prod.snd
  | _ => []

def at? : Json → Place → Option Json
  | j, [] => some j
  | j, i :: p => (j.children[i]?).bind fun k => k.at? p

theorem at?_snoc (j : Json) (p : Place) (i : Nat) :
    j.at? (p ++ [i]) = (j.at? p).bind fun k => k.children[i]? := by
  induction p generalizing j with
  | nil =>
    show (j.children[i]?).bind some = j.children[i]?
    exact Option.bind_fun_some _
  | cons n p ih =>
    show (j.children[n]?).bind (fun k => k.at? (p ++ [i])) = _
    simp only [ih, at?, Option.bind_assoc]

end Json

namespace Thrown
variable (known : Report.Labelled)

def label? : Thrown → Option String
  | object label _ | array label _ => label
  | _ => none

def children : Thrown → List Thrown
  | object _ entries => entries.map Prod.snd
  | array _ items => items
  | _ => []

/-- What a value stands for. -/
def resolved? : Thrown → Option Thrown
  | reference label => (known.find? fun l => l.1 = label).map Prod.snd
  | v => some v

def at? : Thrown → Place → Option Thrown
  | v, [] => v.resolved? known
  | v, i :: p => (v.resolved? known).bind fun c => (c.children[i]?).bind fun w => w.at? p

variable {known}

theorem at?_snoc (v : Thrown) (p : Place) (i : Nat) :
    v.at? known (p ++ [i]) =
      (v.at? known p).bind fun c => (c.children[i]?).bind fun w => w.resolved? known := by
  induction p generalizing v with
  | nil => rfl
  | cons n p ih =>
    show (v.resolved? known).bind (fun c => (c.children[n]?).bind fun w =>
      w.at? known (p ++ [i])) = _
    simp only [ih, at?, Option.bind_assoc]

end Thrown

namespace Report

/-- The place has an object or a list of this label. -/
def Leads (graph : Place → Option Thrown) (p : Place) (label : String) : Prop :=
  ∃ c, graph p = some c ∧ c.label? = some label

theorem Leads.unique {graph : Place → Option Thrown} {p : Place} {label label' : String}
    (h : Leads graph p label) (h' : Leads graph p label') : label = label' := by
  obtain ⟨c, hc, hlabel⟩ := h
  obtain ⟨c', hc', hlabel'⟩ := h'
  obtain rfl : c = c' := Option.some.inj (hc.symm.trans hc')
  exact Option.some.inj (hlabel.symm.trans hlabel')

/-- The document has the value that stands in the graph, but for what that one holds. -/
def Reproduces : Thrown → Json → Prop
  | .object _ entries, .object members => members.map Prod.fst = entries.map Prod.fst
  | .array _ items, .array js => js.length = items.length
  | .null, .null => True
  | .bool b, .bool b' => b' = b
  | .number x, .number y => y = x
  | .string s, .string t => t = s
  | _, _ => False

theorem Reproduces.length_children {c : Thrown} {k : Json} (h : Reproduces c k) :
    k.children.length = c.children.length := by
  unfold Reproduces at h
  split at h
  · simpa [Json.children, Thrown.children] using congrArg List.length h
  · exact h
  · rfl
  · rfl
  · rfl
  · rfl
  · exact h.elim

theorem not_reproduces_text {c : Thrown} {label : String} (h : c.label? = some label)
    (text : String) : ¬ Reproduces c (.string text) := by
  cases c with
  | object => exact id
  | array => exact id
  | _ => cases h

section
variable (before : Place → Place → Prop) (graph : Place → Option Thrown)
  (doc : Place → Option Json)

/-- The label leads to some such place of the document. -/
def Met (such : Place → Prop) (label : String) : Prop :=
  ∃ q, such q ∧ (doc q).isSome = true ∧ Leads graph q label

/-- The label has been seen, or leads to a place of the document before this one. -/
def Known (seen : Seen) (p : Place) (label : String) : Prop :=
  label ∈ seen ∨ Met graph doc (before · p) label

def Repeats (seen : Seen) (p : Place) : Prop :=
  ∃ label, Leads graph p label ∧ Known before graph doc seen p label

/-- The document has a mark at the place just if that repeats something, and has what the graph has
there otherwise. -/
def MarkedAt (seen : Seen) (p : Place) : Prop :=
  ∀ k, doc p = some k → ∃ c, graph p = some c ∧
    (Repeats before graph doc seen p → k = .string circularMark) ∧
    (¬ Repeats before graph doc seen p → Reproduces c k)

def Marked (seen : Seen) : Prop := ∀ p, MarkedAt before graph doc seen p

/-- No object or list stands twice on the way to the place, its end included. -/
def Direct (p : Place) : Prop :=
  ∀ q r label, q <+: p → r <+: p → Leads graph q label → Leads graph r label → q = r

/-- No object or list stands below itself. -/
def Acyclic : Prop :=
  ∀ p q label, Place.Above q p → Leads graph q label → ¬ Leads graph p label

/-- Only one direct way leads to each object and list. -/
def Unshared : Prop :=
  ∀ p q label, Direct graph p → Direct graph q → Leads graph p label → Leads graph q label → p = q

end

/-- The document of a graph marks what stands before, in this sense, and nothing else. -/
def MarksRepeats (before : Place → Place → Prop) (v : Thrown) (j : Json) : Prop :=
  Marked before (v.at? (labelled v)) j.at? []

/-- The document has everything that the graph has, and has it wherever the graph has it. -/
def Copies (v : Thrown) (j : Json) : Prop :=
  ∀ p k, j.at? p = some k → ∃ c, v.at? (labelled v) p = some c ∧ Reproduces c k

/-- Marks are the same where graph, document and what is known are. -/
theorem MarkedAt.congr {before : Place → Place → Prop} {graph graph' : Place → Option Thrown}
    {doc doc' : Place → Option Json} {seen seen' : Seen} {p p' : Place}
    (h : MarkedAt before graph' doc' seen' p') (hgraph : graph p = graph' p')
    (hdoc : doc p = doc' p') (hknown : ∀ label,
      Known before graph doc seen p label ↔ Known before graph' doc' seen' p' label) :
    MarkedAt before graph doc seen p := by
  intro k hk
  obtain ⟨c, hc, hmark, hreproduces⟩ := h k (hdoc ▸ hk)
  have hiff : Repeats before graph doc seen p ↔ Repeats before graph' doc' seen' p' := by
    unfold Repeats Leads
    rw [hgraph]
    exact exists_congr fun label => and_congr_right fun _ => hknown label
  exact ⟨c, hgraph.trans hc, fun hrepeats => hmark (hiff.mp hrepeats),
    fun hnone => hreproduces fun hrepeats => hnone (hiff.mpr hrepeats)⟩

end Report

/-- The same place one document further on. -/
def Place.next : Place → Place
  | [] => []
  | i :: p => (i + 1) :: p

theorem Place.cons_lt_cons {i n : Nat} {q p : Place} :
    (i :: q : Place) < n :: p ↔ i < n ∨ i = n ∧ q < p := List.cons_lt_cons_iff

theorem Place.next_lt_next {i : Nat} {q p : Place} :
    q.next < Place.next (i :: p) ↔ q < (i :: p : Place) := by
  cases q with
  | nil => exact iff_of_true (List.nil_lt_cons _ _) (List.nil_lt_cons _ _)
  | cons n q =>
    show ((n + 1) :: q : Place) < (i + 1) :: p ↔ _
    rw [cons_lt_cons, cons_lt_cons, Nat.add_lt_add_iff_right, Nat.add_right_cancel_iff]

theorem Place.Above.lt {q p : Place} (h : Above q p) : q < p := by
  obtain ⟨⟨r, rfl⟩, hne⟩ := h
  cases r with
  | nil => exact absurd (List.append_nil q).symm hne
  | cons i r =>
    clear hne
    induction q with
    | nil => exact List.nil_lt_cons i r
    | cons n q ih => exact cons_lt_cons.mpr (.inr ⟨rfl, ih⟩)

/-- On the way to a place below another, one comes past the latter and then one of its children. -/
theorem Place.Above.step {q p : Place} (h : Above q p) : ∃ i, q ++ [i] <+: p := by
  obtain ⟨⟨r, rfl⟩, hne⟩ := h
  cases r with
  | nil => exact absurd (List.append_nil q).symm hne
  | cons i r => exact ⟨i, r, by simp⟩

namespace Report
variable {v : Thrown} {j : Json} {known : Labelled} {p q : Place} {label : String}

theorem isSome_upward (h : q <+: p) (hp : (j.at? p).isSome = true) :
    (j.at? q).isSome = true := by
  obtain ⟨r, rfl⟩ := h
  induction r using List.reverseRecOn with
  | nil => rwa [List.append_nil] at hp
  | append_singleton r i ih =>
    rw [← List.append_assoc, Json.at?_snoc] at hp
    cases hr : j.at? (q ++ r) with
    | none =>
      rw [hr] at hp
      cases hp
    | some k => exact ih (by rw [hr]; rfl)

section
variable {before : Place → Place → Prop} {graph : Place → Option Thrown}

/-- Nothing is written below a mark. -/
theorem Marked.not_repeats_above (h : Marked before graph j.at? []) (hp : (j.at? p).isSome = true)
    (hq : Place.Above q p) : ¬ Repeats before graph j.at? [] q := by
  intro hrepeats
  obtain ⟨i, hi⟩ := hq.step
  have hchild := isSome_upward hi hp
  obtain ⟨k, hk⟩ := Option.isSome_iff_exists.mp (isSome_upward hq.1 hp)
  obtain ⟨c, -, hmark, -⟩ := h q k hk
  rw [Json.at?_snoc, hk, hmark hrepeats] at hchild
  cases hchild

/-- A place of a document that marks what has been written before is reached directly if nothing
above it is what stands there. -/
theorem Marked.direct (h : Marked (· < ·) graph j.at? []) (hp : (j.at? p).isSome = true)
    (hfirst : ¬ Repeats Place.Above graph j.at? [] p) : Direct graph p := by
  have hnot {q r : Place} {label : String} (hq : q <+: p) (hr : r <+: p)
      (hqlabel : Leads graph q label) (hrlabel : Leads graph r label) : ¬ q < r := by
    intro hlt
    have hplace := isSome_upward hq hp
    by_cases hend : r = p
    · subst hend
      exact hfirst ⟨label, hrlabel, .inr ⟨q, ⟨hq, ne_of_lt hlt⟩, hplace, hqlabel⟩⟩
    · exact h.not_repeats_above hp ⟨hr, hend⟩
        ⟨label, hrlabel, .inr ⟨q, hlt, hplace, hqlabel⟩⟩
  intro q r label hq hr hqlabel hrlabel
  exact le_antisymm (not_lt.mp (hnot hr hq hrlabel hqlabel))
    (not_lt.mp (hnot hq hr hqlabel hrlabel))

/-- Among the places on the way to one, there is a first that has the same object or list. -/
theorem Leads.exists_first (h : Leads graph q label) :
    ∃ r, r <+: q ∧ Leads graph r label ∧ ∀ t, Place.Above t r → ¬ Leads graph t label := by
  induction hn : q.length using Nat.strong_induction_on generalizing q with
  | _ n ih =>
    by_cases hfirst : ∃ t, Place.Above t q ∧ Leads graph t label
    · obtain ⟨t, habove, ht⟩ := hfirst
      have hshort : t.length < n := by
        rw [← hn]
        exact lt_of_le_of_ne habove.1.length_le fun heq =>
          habove.2 (habove.1.eq_of_length heq)
      obtain ⟨r, hr, hrest⟩ := ih t.length hshort ht rfl
      exact ⟨r, hr.trans habove.1, hrest⟩
    · exact ⟨q, List.prefix_rfl, h, fun t habove ht => hfirst ⟨t, habove, ht⟩⟩

theorem Direct.not_repeats (h : Direct graph p) {doc : Place → Option Json} :
    ¬ Repeats Place.Above graph doc [] p := by
  rintro ⟨label, hlabel, hseen | ⟨q, habove, -, hq⟩⟩
  · cases hseen
  · exact habove.2 (h q p label habove.1 List.prefix_rfl hq hlabel)

theorem Direct.upward (h : Direct graph p) (hq : q <+: p) : Direct graph q :=
  fun r t label hr ht => h r t label (hr.trans hq) (ht.trans hq)

end

/-- A document that marks what stands above has all the places that are reached directly. -/
theorem MarksRepeats.isSome_of_direct (h : MarksRepeats Place.Above v j)
    (hp : Direct (v.at? (labelled v)) p) (hgraph : (v.at? (labelled v) p).isSome = true) :
    (j.at? p).isSome = true := by
  induction p using List.reverseRecOn with
  | nil => rfl
  | append_singleton p i ih =>
    have hdirect := hp.upward (List.prefix_append p [i])
    rw [Thrown.at?_snoc] at hgraph
    obtain ⟨below, hbelow⟩ := Option.isSome_iff_exists.mp hgraph
    obtain ⟨c, hc, hchild⟩ := Option.bind_eq_some_iff.mp hbelow
    obtain ⟨w, hw, -⟩ := Option.bind_eq_some_iff.mp hchild
    obtain ⟨k, hk⟩ := Option.isSome_iff_exists.mp (ih hdirect (by rw [hc]; rfl))
    obtain ⟨c', hc', -, hreproduces⟩ := h p k hk
    obtain rfl : c = c' := Option.some.inj (hc.symm.trans hc')
    have hlength := (hreproduces hdirect.not_repeats).length_children
    have hi := (List.getElem?_eq_some_iff.mp hw).1
    rw [Json.at?_snoc, hk, Option.bind_some, List.getElem?_eq_getElem (hlength ▸ hi)]
    rfl

/-- Of two places for one container, the later one would be marked for what has been written
before, though nothing above it repeats it. -/
theorem MarksRepeats.not_lt_of_direct (h : MarksRepeats (· < ·) v j)
    (habove : MarksRepeats Place.Above v j) (hp : Direct (v.at? (labelled v)) p)
    (hq : Direct (v.at? (labelled v)) q) (hplabel : Leads (v.at? (labelled v)) p label)
    (hqlabel : Leads (v.at? (labelled v)) q label) : ¬ p < q := by
  have hplace {p : Place} (hp : Direct (v.at? (labelled v)) p)
      (hlabel : Leads (v.at? (labelled v)) p label) : (j.at? p).isSome = true := by
    obtain ⟨c, hc, -⟩ := hlabel
    exact habove.isSome_of_direct hp (by rw [hc]; rfl)
  intro hlt
  obtain ⟨k, hk⟩ := Option.isSome_iff_exists.mp (hplace hq hqlabel)
  obtain ⟨c, hc, hmark, -⟩ := h q k hk
  obtain ⟨c', hc', -, hreproduces⟩ := habove q k hk
  obtain rfl : c = c' := Option.some.inj (hc.symm.trans hc')
  obtain ⟨c', hc', hcontainer⟩ := hqlabel
  obtain rfl : c = c' := Option.some.inj (hc.symm.trans hc')
  have hrepeats : Repeats (· < ·) (v.at? (labelled v)) j.at? [] q :=
    ⟨label, ⟨c, hc, hcontainer⟩, .inr ⟨p, hlt, hplace hp hplabel, hplabel⟩⟩
  obtain rfl := hmark hrepeats
  exact not_reproduces_text hcontainer _ (hreproduces hq.not_repeats)

/-- Where nothing is shared, whatever repeats what has been written before repeats what stands
above it. -/
theorem MarksRepeats.repeats_above_iff (h : MarksRepeats (· < ·) v j)
    (hunshared : Unshared (v.at? (labelled v))) (hplace : (j.at? p).isSome = true) :
    Repeats Place.Above (v.at? (labelled v)) j.at? [] p ↔
      Repeats (· < ·) (v.at? (labelled v)) j.at? [] p := by
  constructor
  · rintro ⟨label, hlabel, hseen | ⟨q, habove, hq⟩⟩
    · cases hseen
    · exact ⟨label, hlabel, .inr ⟨q, habove.lt, hq⟩⟩
  · rintro ⟨label, hlabel, hseen | ⟨q, hlt, hq, hqlabel⟩⟩
    · cases hseen
    · by_contra hnone
      -- Both the place and the first one on the way to the other are reached directly.
      have hdirect := Marked.direct h hplace hnone
      obtain ⟨r, hr, hrlabel, hfirst⟩ := hqlabel.exists_first
      have hrdirect : Direct (v.at? (labelled v)) r := by
        refine Marked.direct h (isSome_upward hr hq) ?_
        rintro ⟨label', hlabel', hseen | ⟨t, habove, -, ht⟩⟩
        · cases hseen
        · exact hfirst t habove (hlabel'.unique hrlabel ▸ ht)
      obtain rfl := hunshared p r label hdirect hrdirect hlabel hrlabel
      by_cases hend : p = q
      · exact lt_irrefl q (hend ▸ hlt)
      · exact lt_asymm hlt (Place.Above.lt ⟨hr, hend⟩)

/-- Where what has been written before is marked, this is what stands above if and only if nothing
is shared. -/
theorem MarksRepeats.above_iff (h : MarksRepeats (· < ·) v j) :
    MarksRepeats Place.Above v j ↔ Unshared (v.at? (labelled v)) := by
  constructor
  · intro habove p q label hp hq hplabel hqlabel
    have hpq := h.not_lt_of_direct habove hp hq hplabel hqlabel
    have hqp := h.not_lt_of_direct habove hq hp hqlabel hplabel
    exact le_antisymm (not_lt.mp hqp) (not_lt.mp hpq)
  · intro hunshared p k hk
    have hiff := h.repeats_above_iff hunshared (p := p) (by rw [hk]; rfl)
    obtain ⟨c, hc, hmark, hreproduces⟩ := h p k hk
    exact ⟨c, hc, fun hrepeats => hmark (hiff.mp hrepeats),
      fun hnone => hreproduces fun hrepeats => hnone (hiff.mpr hrepeats)⟩

/-- Where there are no circles, to mark what stands above is to copy. -/
theorem Acyclic.copies_iff (h : Acyclic (v.at? (labelled v))) :
    MarksRepeats Place.Above v j ↔ Copies v j := by
  have hnever (p : Place) : ¬ Repeats Place.Above (v.at? (labelled v)) j.at? [] p := by
    rintro ⟨label, hlabel, hseen | ⟨q, habove, -, hq⟩⟩
    · cases hseen
    · exact h p q label habove hq hlabel
  constructor
  · intro hmarks p k hk
    obtain ⟨c, hc, -, hreproduces⟩ := hmarks p k hk
    exact ⟨c, hc, hreproduces (hnever p)⟩
  · intro hcopies p k hk
    obtain ⟨c, hc, hreproduces⟩ := hcopies p k hk
    exact ⟨c, hc, fun hrepeats => absurd hrepeats (hnever p), fun _ => hreproduces⟩

end Report
end Bearer
