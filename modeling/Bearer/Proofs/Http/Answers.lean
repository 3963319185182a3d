import Bearer.Http.Answer
import Bearer.Proofs.Text.Blank
import Mathlib.Data.List.TakeDrop
import Mathlib.Data.Rat.Lemmas

namespace Bearer

namespace Double

theorem read?_of_all_isBlank {cs : List Char} (h : cs.all Text.isBlank = true) :
    read? cs = none := by
  cases cs with
  | nil => rfl
  | cons c cs =>
    rw [List.all_cons, Bool.and_eq_true] at h
    obtain ⟨hd, hc⟩ := Text.not_value_of_isBlank h.1
    simp only [List.mem_cons, List.not_mem_nil, or_false, not_or] at hc
    have hnone : takeDigits (c :: cs) = ([], c :: cs) := by
      simp [takeDigits, List.span_eq_takeWhile_dropWhile, hd]
    unfold read?
    split
    next negative cs' heq =>
    split at heq
    · next r hr => exact absurd (List.cons.inj hr).1 hc.1
    · cases heq
      split
      · next r hr => exact absurd (List.cons.inj hr).1 hc.2.2.2.2.2.2.2
      · simp only [hnone]
        rfl

theorem toInt?_eq_some {x : Double} {n : Int} : x.toInt? = some n ↔ x = .finite n := by
  constructor
  · intro h
    cases x with
    | finite a =>
      simp only [toInt?] at h
      split at h
      · next hden =>
        obtain rfl := Option.some.inj h
        exact congrArg finite ((Rat.den_eq_one_iff a).mp hden).symm
      · cases h
    | _ => cases h
  · rintro rfl
    simp [toInt?]

end Double

namespace Json

theorem skip_isBlank {cs : List Char} (h : cs.all Text.isBlank = true) :
    (skip cs).all Text.isBlank = true := by
  rw [List.all_eq_true] at h ⊢
  exact fun c hc => h c ((List.dropWhile_sublist _).mem hc)

theorem readValue_blank (fuel : Nat) {cs : List Char} (h : cs.all Text.isBlank = true) :
    readValue fuel cs = none := by
  cases fuel with
  | zero => rfl
  | succ fuel =>
    have hs := skip_isBlank h
    rw [readValue]
    have hstart (c : Char) (rest : List Char) (hc : skip cs = c :: rest) :
        c ∉ ['-', '{', '[', '"', 't', 'f', 'n', '0'] := by
      rw [hc, List.all_cons, Bool.and_eq_true] at hs
      exact (Text.not_value_of_isBlank hs.1).2
    split
    · next rest hr => exact absurd (by simp) (hstart _ _ hr)
    · next rest hr => exact absurd (by simp) (hstart _ _ hr)
    · next rest hr => exact absurd (by simp) (hstart _ _ hr)
    · next rest hr => exact absurd (by simp) (hstart _ _ hr)
    · next rest hr => exact absurd (by simp) (hstart _ _ hr)
    · next rest hr => exact absurd (by simp) (hstart _ _ hr)
    · rw [Double.read?_of_all_isBlank hs]
      rfl

theorem parse_blank {text : String} (h : Text.isBlankText text = true) : parse text = none := by
  rw [parse]
  simp only [readValue_blank _ h]

end Json

namespace Http

/-- The number that a field means is this whole one: the field is a number, or a text that
spells one. -/
inductive Whole : Json → Int → Prop
  | number (n : Int) : Whole (.number (.finite n)) n
  | numeral {s : String} {n : Int} (hs : Text.isBlankText s = false)
      (hn : Double.ofText s = .finite n) : Whole (.string s) n

/-- What an object has under a name: nothing or null, which both mean none, or a text. -/
inductive Optional (data : Json.Members) (key : String) : Option String → Prop
  | absent (h : Json.Members.get? data key = none) : Optional data key none
  | null (h : Json.Members.get? data key = some .null) : Optional data key none
  | text {s : String} (h : Json.Members.get? data key = some (.string s)) :
      Optional data key (some s)

/-- The error says that an answer makes no sense. -/
def Malformed (e : Thrown) : Prop := e.kind? = some .malformedResponse

theorem whole_iff (j : Json) (n : Int) : Whole j n ↔ (numberOf j).toInt? = some n := by
  rw [Double.toInt?_eq_some]
  constructor
  · rintro (_ | ⟨hs, hn⟩)
    · rfl
    · rw [numberOf, hs]
      exact hn
  · intro h
    cases j with
    | number x =>
      obtain rfl : x = _ := h
      exact .number n
    | string s =>
      rw [numberOf] at h
      split at h
      · cases h
      · next hs => exact .numeral (by simpa using hs) h
    | _ => cases h

variable {data : Json.Members} {key context : String}

theorem parseObject_eq_ok {text : String} :
    parseObject text context = .ok data ↔ Json.parse text = some (.object data) := by
  rw [parseObject]
  split
  · next hb =>
    rw [Json.parse_blank hb]
    exact iff_of_false nofun nofun
  · split
    · next hp => exact iff_of_false nofun (by simp [hp])
    · next members hp => simp [hp]
    · next j hj hp =>
      refine iff_of_false nofun ?_
      rw [hp]
      rintro ⟨rfl⟩
      exact hj _ rfl

theorem parseObject_error {text : String} {e : Thrown}
    (h : parseObject text context = .error e) : Malformed e := by
  rw [parseObject] at h
  split at h
  · cases h
    rfl
  · split at h <;> cases h <;> rfl

theorem lookup_eq_document {j : Json} :
    lookup data key = .document j ↔ Json.Members.get? data key = some j ∧ j ≠ .null := by
  unfold lookup
  constructor
  · intro h
    split at h
    · cases h
    · next hnull hj =>
      cases h
      exact ⟨hj, hnull⟩
    · split at h <;> cases h
  · rintro ⟨hj, hnull⟩
    rw [hj]
    cases j <;> first | rfl | exact absurd rfl hnull

theorem lookup_eq_nothing :
    lookup data key = .nothing ↔
      (Json.Members.get? data key = none ∧ Json.inheritedNames.contains key = false) ∨
      Json.Members.get? data key = some .null := by
  unfold lookup
  split
  · next hj => simp [hj]
  · next hnull hj =>
    refine iff_of_false nofun ?_
    rintro (⟨hnone, -⟩ | hsome)
    · rw [hj] at hnone
      cases hnone
    · rw [hj] at hsome
      exact hnull (Option.some.inj hsome)
  · next hnone => simp [hnone]

theorem requireString_eq_ok {s : String} :
    requireString data key context = .ok s ↔ Json.Members.get? data key = some (.string s) := by
  unfold requireString
  constructor
  · intro h
    split at h
    · cases h
    · next hlook =>
      cases h
      exact (lookup_eq_document.mp hlook).1
    · cases h
  · intro h
    simp only [lookup_eq_document.mpr ⟨h, nofun⟩]

theorem requireString_error {e : Thrown} (h : requireString data key context = .error e) :
    Malformed e := by
  unfold requireString at h
  split at h
  · cases h
    rfl
  · cases h
  · cases h
    rfl

theorem requireInteger_eq_ok {x : Double} :
    requireInteger data key context = .ok x ↔
      ∃ j n, Json.Members.get? data key = some j ∧ Whole j n ∧ x = .finite n := by
  unfold requireInteger
  constructor
  · intro h
    split at h
    · cases h
    · cases h
    · next j hlook =>
      split at h
      · next n hn =>
        cases h
        exact ⟨j, n, (lookup_eq_document.mp hlook).1, (whole_iff j n).mpr hn, rfl⟩
      · cases h
  · rintro ⟨j, n, hget, hn, rfl⟩
    have hj : j ≠ .null := by
      rintro rfl
      cases hn
    simp only [lookup_eq_document.mpr ⟨hget, hj⟩, (whole_iff j n).mp hn]

theorem requireInteger_error {e : Thrown} (h : requireInteger data key context = .error e) :
    Malformed e := by
  unfold requireInteger at h
  split at h
  · cases h
    rfl
  · cases h
    rfl
  · split at h
    · cases h
    · cases h
      rfl

/-- An optional text is there, or the field is null or, under a name that nothing else
answers to, absent. -/
theorem optionalString_eq_ok {text : Option String}
    (hkey : Json.inheritedNames.contains key = false) :
    optionalString data key context = .ok text ↔ Optional data key text := by
  unfold optionalString
  constructor
  · intro h
    split at h
    · next hlook =>
      cases h
      rcases lookup_eq_nothing.mp hlook with ⟨hnone, -⟩ | hnull
      · exact .absent hnone
      · exact .null hnull
    · cases hs : requireString data key context with
      | error e => simp [hs, Except.map] at h
      | ok s =>
        rw [hs] at h
        cases h
        exact .text (requireString_eq_ok.mp hs)
  · rintro (h | h | h)
    · simp only [lookup_eq_nothing.mpr (.inl ⟨h, hkey⟩)]
    · simp only [lookup_eq_nothing.mpr (.inr h)]
    · simp only [lookup_eq_document.mpr ⟨h, nofun⟩, requireString_eq_ok.mpr h, Except.map]

theorem optionalString_error {e : Thrown} (h : optionalString data key context = .error e) :
    Malformed e := by
  unfold optionalString at h
  split at h
  · cases h
  · cases hs : requireString data key context with
    | error e' =>
      rw [hs] at h
      cases h
      exact requireString_error hs
    | ok s => simp [hs, Except.map] at h

theorem tokenOf_eq_ok {now : Double} {t : Token} :
    tokenOf data now context = .ok t ↔
      ∃ value j n, Json.Members.get? data "access_token" = some (.string value) ∧
        Json.Members.get? data "expires_in" = some j ∧ Whole j n ∧
        t = Token.lasting value now (.finite n) := by
  unfold tokenOf
  constructor
  · intro h
    cases hvalue : requireString data "access_token" context with
    | error e => simp [hvalue, bind, Except.bind] at h
    | ok value =>
      cases hlife : requireInteger data "expires_in" context with
      | error e => simp [hvalue, hlife, bind, Except.bind] at h
      | ok seconds =>
        simp only [hvalue, hlife, bind, Except.bind, Except.ok.injEq] at h
        obtain ⟨j, n, hj, hn, rfl⟩ := requireInteger_eq_ok.mp hlife
        exact ⟨value, j, n, requireString_eq_ok.mp hvalue, hj, hn, h.symm⟩
  · rintro ⟨value, j, n, hvalue, hj, hn, rfl⟩
    rw [requireString_eq_ok.mpr hvalue, requireInteger_eq_ok.mpr ⟨j, n, hj, hn, rfl⟩]
    rfl

theorem tokenOf_error {now : Double} {e : Thrown} (h : tokenOf data now context = .error e) :
    Malformed e := by
  unfold tokenOf at h
  cases hvalue : requireString data "access_token" context with
  | error e' =>
    rw [hvalue] at h
    cases h
    exact requireString_error hvalue
  | ok value =>
    cases hlife : requireInteger data "expires_in" context with
    | error e' =>
      rw [hvalue, hlife] at h
      cases h
      exact requireInteger_error hlife
    | ok seconds => simp [hvalue, hlife, bind, Except.bind] at h

/-- The error tells this status and this body. -/
def Reports (e : Thrown) (status : Nat) (body : String) : Prop :=
  e.kind? = some (.httpStatus (some (Double.ofNat status)) (some body)) ∨
  ∃ code description uri,
    e.kind? = some (.oauth (some (Double.ofNat status)) (some body) (some code) description uri)

/-- The error is one in the form that the protocol gives to errors. -/
def IsRejection (e : Thrown) : Prop :=
  ∃ status body code description uri, e.kind? = some (.oauth status body code description uri)

/-- The text is that of an object that names an error. -/
def NamesError (body : String) : Prop :=
  ∃ data code, Json.parse body = some (.object data) ∧
    Json.Members.get? data "error" = some (.string code)

theorem failureOf_reports (status : Nat) (body context : String) :
    Reports (failureOf status body context).thrown status body ∧
      (IsRejection (failureOf status body context).thrown ↔ NamesError body) := by
  have hplain {f : Fault} (hf : f.kind = Fault.statusKind status body)
      (hnot : ¬ NamesError body) :
      Reports f.thrown status body ∧ (IsRejection f.thrown ↔ NamesError body) := by
    refine ⟨.inl (congrArg some hf), iff_of_false ?_ hnot⟩
    rintro ⟨s, b, code, description, uri, h⟩
    have hkind : f.kind = .oauth s b code description uri := Option.some.inj h
    rw [hf] at hkind
    cases hkind
  unfold failureOf
  split
  · next data hparse =>
    have hnames (h : NamesError body) :
        ∃ code, Json.Members.get? data "error" = some (.string code) := by
      obtain ⟨data', code, hparse', hcode⟩ := h
      obtain rfl : data = data' := by simpa using hparse.symm.trans hparse'
      exact ⟨code, hcode⟩
    split
    · next code hcode =>
      exact ⟨.inr ⟨code, _, _, rfl⟩, iff_of_true ⟨_, _, _, _, _, rfl⟩ ⟨data, code, hparse, hcode⟩⟩
    · next inner hinner =>
      have hnot : ¬ NamesError body := fun h => by
        obtain ⟨code, hcode⟩ := hnames h
        simp [hinner] at hcode
      split <;> exact hplain rfl hnot
    · next hstring hobject =>
      refine hplain rfl fun h => ?_
      obtain ⟨code, hcode⟩ := hnames h
      exact hstring code hcode
  · next hobject =>
    refine hplain rfl ?_
    rintro ⟨data, code, hparse, -⟩
    exact hobject data hparse

end Http
end Bearer
