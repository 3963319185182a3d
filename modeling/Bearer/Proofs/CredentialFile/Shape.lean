import Bearer.CredentialFile.Shape

namespace Bearer.Shape

/-- The members that an object has besides those of known names. -/
def unknown (members : List (String × Shape)) (ms : Json.Members) : Json.Members :=
  ms.filter fun m => !(members.any fun s => s.1 == m.1)

mutual

/-- The document has the shape: a text that is long enough and one of those that are allowed,
an object that has what it must have and whose members have their shapes, or null. -/
def Fits (shape : Shape) (j : Json) : Prop :=
  match shape with
  | text least among nullable =>
    (nullable = true ∧ j = .null) ∨
      ∃ s, j = .string s ∧ least ≤ s.length ∧ (among = [] ∨ s ∈ among)
  | object members required others nullable =>
    (nullable = true ∧ j = .null) ∨
      ∃ ms, j = .object ms ∧ (∀ name ∈ required, (Json.Members.get? ms name).isSome) ∧
        MembersFit members ms ∧ OthersFit others (unknown members ms)

/-- Those members have their shapes that are there. -/
def MembersFit (members : List (String × Shape)) (ms : Json.Members) : Prop :=
  match members with
  | [] => True
  | (name, shape) :: rest =>
    (∀ j, Json.Members.get? ms name = some j → Fits shape j) ∧ MembersFit rest ms

/-- All other members have the shape of the others, if there is one. -/
def OthersFit (others : Option Shape) (ms : Json.Members) : Prop :=
  match others with
  | none => True
  | some shape => ∀ m ∈ ms, Fits shape m.2

end

theorem textDeparture?_eq_none {least : Nat} {among : List String} {s : String} :
    textDeparture? least among s = none ↔ least ≤ s.length ∧ (among = [] ∨ s ∈ among) := by
  unfold textDeparture?
  split
  · next h => exact iff_of_false nofun fun hs => absurd hs.1 (Nat.not_le.mpr h)
  · next h =>
    rw [and_iff_right (Nat.not_lt.mp h)]
    split
    · simp
    · next only => by_cases hs : s = only <;> simp [hs]
    · next hnil hone =>
      have hne : among ≠ [] := hnil
      by_cases hs : s ∈ among <;> simp [hs, hne]

theorem missing?_eq_none {ms : Json.Members} {required : List String} :
    missing? ms required = none ↔ ∀ name ∈ required, (Json.Members.get? ms name).isSome := by
  simp [missing?, Option.isSome_iff_ne_none]

mutual

/-- A document departs nowhere exactly if it has the shape. -/
theorem departure?_eq_none (shape : Shape) (path : List String) (j : Json) :
    departure? shape path j = none ↔ Fits shape j := by
  match shape with
  | text least among nullable =>
    unfold Fits
    cases j with
    | string s => simp [departure?, textDeparture?_eq_none]
    | null => cases nullable <;> simp [departure?]
    | _ => simp [departure?]
  | object members required others nullable =>
    unfold Fits
    cases j with
    | object ms =>
      simp only [departure?, reduceCtorEq, and_false, false_or, Json.object.injEq,
        exists_eq_left', ← missing?_eq_none]
      cases hmissing : missing? ms required with
      | some name => simp
      | none =>
        simp [Option.or_eq_none_iff, memberDeparture?_eq_none members path ms,
          othersDeparture?_eq_none others path, unknown]
    | null => cases nullable <;> simp [departure?]
    | _ => simp [departure?]

theorem memberDeparture?_eq_none (members : List (String × Shape)) (path : List String)
    (ms : Json.Members) : memberDeparture? members path ms = none ↔ MembersFit members ms := by
  match members with
  | [] => simp [memberDeparture?, MembersFit]
  | (name, shape) :: rest =>
    rw [memberDeparture?, MembersFit, Option.or_eq_none_iff, memberDeparture?_eq_none rest path ms]
    refine and_congr_left fun _ => ?_
    cases Json.Members.get? ms name with
    | none => simp
    | some j => simp [departure?_eq_none shape (path ++ [name]) j]

theorem othersDeparture?_eq_none (others : Option Shape) (path : List String)
    (ms : Json.Members) : othersDeparture? others path ms = none ↔ OthersFit others ms := by
  match others with
  | none => simp [othersDeparture?, OthersFit]
  | some shape =>
    rw [othersDeparture?, OthersFit, List.findSome?_eq_none_iff]
    exact forall₂_congr fun m _ => departure?_eq_none shape (path ++ [m.1]) m.2

end

mutual

/-- The document without the members that the shape does not know, at any depth. -/
def known (shape : Shape) (j : Json) : Json :=
  match shape with
  | text .. => j
  | object members _ others _ =>
    match others, j with
    | none, .object ms => .object (knownMembers members ms)
    | _, j => j

def knownMembers (members : List (String × Shape)) (ms : Json.Members) : Json.Members :=
  match members with
  | [] => []
  | (name, shape) :: rest =>
    match Json.Members.get? ms name with
    | some j => (name, known shape j) :: knownMembers rest ms
    | none => knownMembers rest ms

end

mutual

/-- No object has two members of one name, and none has to have a member that is not known. -/
def Sound (shape : Shape) : Prop :=
  match shape with
  | text .. => True
  | object members required _ _ =>
    members.Pairwise (fun s t => s.1 ≠ t.1) ∧ (∀ name ∈ required, ∃ s ∈ members, s.1 = name) ∧
      AllSound members

def AllSound (members : List (String × Shape)) : Prop :=
  match members with
  | [] => True
  | (_, shape) :: rest => Sound shape ∧ AllSound rest

end

theorem find?_of_mem {members : List (String × Shape)} {s : String × Shape}
    (hdistinct : members.Pairwise fun s t => s.1 ≠ t.1) (hs : s ∈ members) :
    members.find? (fun t => t.1 == s.1) = some s := by
  induction hdistinct with
  | nil => cases hs
  | @cons t rest hne _ ih =>
    rcases List.mem_cons.mp hs with rfl | hrest
    · simp
    · rw [List.find?_cons_of_neg (by simpa using hne s hrest), ih hrest]

theorem get?_cons (name other : String) (j : Json) (ms : Json.Members) :
    Json.Members.get? ((name, j) :: ms) other
      = if name = other then some j else Json.Members.get? ms other := by
  by_cases h : name = other <;> simp [Json.Members.get?, h]

/-- A known member is still there, itself without what is not known of it. -/
theorem get?_knownMembers (members : List (String × Shape)) (ms : Json.Members) (name : String) :
    Json.Members.get? (knownMembers members ms) name
      = (members.find? fun s => s.1 == name).bind
          fun s => (Json.Members.get? ms name).map (known s.2) := by
  induction members with
  | nil => rfl
  | cons s rest ih =>
    obtain ⟨other, shape⟩ := s
    rw [knownMembers]
    by_cases h : other = name
    · subst h
      cases hget : Json.Members.get? ms other with
      | some j => simp [get?_cons]
      | none => simp [ih, hget]
    · cases Json.Members.get? ms other with
      | some j => simp [get?_cons, h, ih]
      | none => simp [ih, h]

theorem missing?_congr {ms ms' : Json.Members} {required : List String}
    (h : ∀ name ∈ required,
      (Json.Members.get? ms' name).isNone = (Json.Members.get? ms name).isNone) :
    missing? ms' required = missing? ms required := by
  unfold missing?
  induction required with
  | nil => rfl
  | cons name rest ih =>
    rw [List.find?_cons, List.find?_cons, h name List.mem_cons_self,
      ih fun other hother => h other (List.mem_cons_of_mem name hother)]

mutual

/-- What a shape does not know of a document is no reason for a departure, nor against one. -/
theorem departure?_known (shape : Shape) (hsound : shape.Sound) (path : List String) (j : Json) :
    departure? shape path (known shape j) = departure? shape path j := by
  match shape with
  | text .. => rw [known]
  | object members required (some others) nullable => rw [known]; simp
  | object members required none nullable =>
    cases j with
    | object ms =>
      obtain ⟨hdistinct, hrequired, hall⟩ := hsound
      have hget : ∀ s ∈ members, Json.Members.get? (knownMembers members ms) s.1
          = (Json.Members.get? ms s.1).map (known s.2) := fun s hs => by
        rw [get?_knownMembers, find?_of_mem hdistinct hs, Option.bind_some]
      have hmissing : missing? (knownMembers members ms) required = missing? ms required :=
        missing?_congr fun name hname => by
          obtain ⟨s, hs, rfl⟩ := hrequired name hname
          rw [hget s hs, Option.isNone_map]
      simp only [known, departure?, hmissing, othersDeparture?,
        memberDeparture?_known members hall path _ ms hget]
    | _ => rfl

theorem memberDeparture?_known (rest : List (String × Shape)) (hsound : AllSound rest)
    (path : List String) (kept ms : Json.Members)
    (hkept : ∀ s ∈ rest,
      Json.Members.get? kept s.1 = (Json.Members.get? ms s.1).map (known s.2)) :
    memberDeparture? rest path kept = memberDeparture? rest path ms := by
  match rest with
  | [] => rfl
  | (name, shape) :: rest =>
    obtain ⟨hshape, hrest⟩ := hsound
    rw [memberDeparture?, memberDeparture?, hkept _ List.mem_cons_self,
      memberDeparture?_known rest hrest path kept ms fun s hs =>
        hkept s (List.mem_cons_of_mem _ hs)]
    cases Json.Members.get? ms name with
    | none => rfl
    | some j => simp only [Option.map_some, departure?_known shape hshape (path ++ [name]) j]

end

end Bearer.Shape
