import Bearer.Authorizer
import Bearer.Proofs.Json.RoundTrip

namespace Bearer

namespace Expiry

/-- An instant that the calendar has, where there is one. -/
def Told (e : Expiry) : Prop := ∀ ms, e = .at ms → Time.isValid ms = true

/-- What comes back of an expiry that was written down. -/
def kept : Expiry → Expiry
  | invalid => never
  | e => e

end Expiry

namespace Authorizer.Stored

def kept (s : Stored) : Stored :=
  { token := (s.token.filter (·.value ≠ "")).map (fun t => ⟨t.value, t.expiry.kept⟩)
    refreshToken := s.refreshToken }

def members (s : Stored) : Json.Members :=
  [(tokenName, (s.token.map (fun t => Json.string t.value)).getD .null),
   (expiryName, ((s.token.bind (fun t => t.expiry.toNumber?)).map Json.number).getD .null),
   (refreshName, (s.refreshToken.map Json.string).getD .null)]

theorem document_eq (s : Stored) : s.document = .object s.members := rfl

theorem document_tidy {s : Stored} (h : ∀ t, s.token = some t → t.expiry.Told) :
    s.document.Tidy := by
  have hnames : [tokenName, expiryName, refreshName].Nodup := by decide
  have hindex : ∀ name ∈ [tokenName, expiryName, refreshName], Json.index? name = none := by
    decide
  refine ⟨hnames, fun m hm => hindex m.1 (List.mem_map_of_mem hm), ?_, ?_, ?_, trivial⟩
  · cases s.token <;> trivial
  · rcases htoken : s.token with - | ⟨value, - | - | ms⟩
    · trivial
    · trivial
    · trivial
    · exact Json.tidy_ofInt (Time.natAbs_of_isValid (h _ htoken ms rfl))
  · cases s.refreshToken <;> trivial

theorem parseObject_document {s : Stored} (h : ∀ t, s.token = some t → t.expiry.Told)
    (context : String) :
    Http.parseObject s.document.render context = .ok (Json.settledMembers s.members) := by
  have hblank : Text.isBlankText s.document.render = false := by
    rw [Text.isBlankText, Json.render, String.toList_ofList, document_eq, Json.write]
    rfl
  rw [Http.parseObject, hblank, if_neg Bool.false_ne_true, Json.parse_render (document_tidy h)]
  rfl

theorem optionalString_of_get? {data : Json.Members} {key context : String} {o : Option String}
    (h : data.get? key = some ((o.map Json.string).getD .null)) :
    Http.optionalString data key context = .ok o := by
  cases o with
  | none => simp [Http.optionalString, Http.lookup, h]
  | some value => simp [Http.optionalString, Http.requireString, Http.lookup, h, Except.map]

theorem expiryIn_document {value : String} {expiry : Expiry} {refreshToken : Option String}
    (h : expiry.Told) :
    expiryIn (Json.settledMembers (members ⟨some ⟨value, expiry⟩, refreshToken⟩))
      = expiry.kept := by
  cases expiry with
  | never => rfl
  | invalid => rfl
  | «at» ms =>
    have hms := h ms rfl
    have hfound : Json.Members.get?
        (Json.settledMembers (members ⟨some ⟨value, .at ms⟩, refreshToken⟩)) expiryName
          = some (Json.number (.ofInt ms)) :=
      congrArg some (Json.settled_ofInt (Time.natAbs_of_isValid hms))
    rw [expiryIn, hfound]
    exact Expiry.ofNumber_instant hms

theorem ofText_document {s : Stored} (h : ∀ t, s.token = some t → t.expiry.Told) :
    Stored.ofText s.document.render = .ok s.kept := by
  obtain ⟨token, refreshToken⟩ := s
  have hvalue : Json.Members.get? (Json.settledMembers (members ⟨token, refreshToken⟩)) tokenName
      = some (((token.map Token.value).map Json.string).getD .null) := by
    cases token <;> rfl
  have hrefresh :
      Json.Members.get? (Json.settledMembers (members ⟨token, refreshToken⟩)) refreshName
      = some ((refreshToken.map Json.string).getD .null) := by
    cases refreshToken <;> rfl
  rw [ofText, parseObject_document h]
  simp only [bind, Except.bind, optionalString_of_get? hvalue, optionalString_of_get? hrefresh]
  rcases token with - | ⟨value, expiry⟩
  · rfl
  · rw [expiryIn_document (h _ rfl)]
    by_cases hempty : value = "" <;> simp [kept, hempty, Option.filter, pure, Except.pure]

end Authorizer.Stored
end Bearer
