import Bearer.Exchange
import Bearer.Proofs.Text.Base64
import Bearer.Proofs.Text.Form

namespace Bearer

namespace Http

/-- The value of a header of exactly this name. -/
def Headers.get? (hs : Headers) (name : String) : Option String :=
  (List.find? (fun h => h.1 = name) hs).map Prod.snd

theorem Headers.get?_set_self (hs : Headers) (name value : String) :
    (hs.set name value).get? name = some value := by
  induction hs with
  | nil => simp [set, get?]
  | cons h hs ih =>
    rw [set]
    split
    · simp [get?]
    · next hne => simpa [get?, hne] using ih

theorem Headers.get?_set_other (hs : Headers) {name other : String} (hne : other ≠ name)
    (value : String) : (hs.set other value).get? name = hs.get? name := by
  induction hs with
  | nil => simp [set, get?, hne]
  | cons h hs ih =>
    rw [set]
    split
    · next heq => simp [get?, heq, hne]
    · by_cases hname : h.1 = name
      · simp [get?, hname]
      · simpa [get?, hname] using ih

def Request.header? (r : Request) (name : String) : Option String :=
  (r.headers.getD []).get? name

end Http

namespace Exchange

def Request.http (r : Request) : Http.Request :=
  Http.postForm r.endpoint (.ofStrings r.form) r.allHeaders

theorem perform_sends (r : Request) : ∃ next, r.perform = .ask (.send r.http) next := ⟨_, rfl⟩

/-- The client that some letters name: the bytes in them are a text, the first colon in it ends
the id, and both parts are percent encoded. -/
def clientIn (letters : String) : String × String :=
  let pair := Text.Utf8.decode (Text.Base64.decode letters.toList)
  (String.ofList (Text.Percent.decode (pair.takeWhile (· ≠ ':'))),
    String.ofList (Text.Percent.decode ((pair.dropWhile (· ≠ ':')).drop 1)))

/-- A colon ends the id, since none survives inside it. -/
theorem clientIn_basicCredentials (c : ClientIdentity) :
    clientIn (basicCredentials c) = (c.id, c.secret.getD "") := by
  have hcolon : ':' ∉ (Text.Percent.encodeComponent c.id).toList :=
    Text.Percent.not_mem_encodeComponent (by decide) (by decide) (by decide) _
  obtain ⟨hid, hsecret⟩ := Text.Form.cut_append hcolon
    (Text.Percent.encodeComponent (c.secret.getD "")).toList
  have hpair : (Text.Percent.encodeComponent c.id ++ ":"
      ++ Text.Percent.encodeComponent (c.secret.getD "")).toList =
        (Text.Percent.encodeComponent c.id).toList ++
          ':' :: (Text.Percent.encodeComponent (c.secret.getD "")).toList := by
    simp
  simp only [clientIn, basicCredentials, Text.Base64.encodeString, String.toList_ofList,
    Text.Base64.decode_encode, Text.Utf8.decode_encode]
  rw [hpair, hid, hsecret, Text.Percent.decode_encodeComponent,
    Text.Percent.decode_encodeComponent]

theorem header?_authorization {r : Request} {c : ClientIdentity} (h : r.client = some c) :
    r.http.header? Token.authorizationHeader = some ("Basic " ++ basicCredentials c) := by
  have hheaders : r.http.header? Token.authorizationHeader =
      (r.allHeaders.set Http.contentType Http.formType).get? Token.authorizationHeader := rfl
  rw [hheaders, Http.Headers.get?_set_other _ (by decide), Request.allHeaders, h]
  exact Http.Headers.get?_set_self _ _ _

/-- The header with which a client proves who it is: an exchange for a client sends padded
standard letters, out of which the id and the secret are read as they are, an absent secret as
an empty one. So exchanges for clients with another id or another secret never send the same
header. -/
theorem client_reads_back :
    (∀ r : Request, ∃ next, r.perform = .ask (.send r.http) next) ∧
    (∀ (r : Request) (c : ClientIdentity), r.client = some c → ∃ letters,
      r.http.header? "Authorization" = some ("Basic " ++ letters) ∧
      Text.Base64.IsPadded letters.toList ∧ clientIn letters = (c.id, c.secret.getD "")) ∧
    ∀ (r r' : Request) (c c' : ClientIdentity), r.client = some c → r'.client = some c' →
      (c.id, c.secret.getD "") ≠ (c'.id, c'.secret.getD "") →
      r.http.header? "Authorization" ≠ r'.http.header? "Authorization" := by
  refine ⟨perform_sends, ?_, ?_⟩
  · intro r c hc
    refine ⟨basicCredentials c, header?_authorization hc, ?_, clientIn_basicCredentials c⟩
    rw [basicCredentials, Text.Base64.encodeString, String.toList_ofList]
    exact Text.Base64.isPadded_encode _
  · intro r r' c c' hc hc' hne hheader
    have hvalues : "Basic " ++ basicCredentials c = "Basic " ++ basicCredentials c' :=
      Option.some.inj (((header?_authorization hc).symm.trans hheader).trans
        (header?_authorization hc'))
    have hletters : basicCredentials c = basicCredentials c' :=
      (String.append_right_inj _).mp hvalues
    rw [← clientIn_basicCredentials c, hletters, clientIn_basicCredentials] at hne
    exact hne rfl

def Request.bare (c : ClientIdentity) : Request :=
  { endpoint := "", subjectToken := .missing, subjectTokenType := .missing, client := some c }

/-- A client whose id ends in a colon is told apart from one whose secret starts with it. -/
theorem client_reads_back_colon :
    let ending : ClientIdentity := ⟨"a:", .value "b%"⟩
    let starting : ClientIdentity := ⟨"a", .value ":b%"⟩
    (∃ letters, (Request.bare ending).http.header? "Authorization" = some ("Basic " ++ letters) ∧
      Text.Base64.IsPadded letters.toList ∧ clientIn letters = ("a:", "b%")) ∧
    (Request.bare ending).http.header? "Authorization" ≠
      (Request.bare starting).http.header? "Authorization" := by
  intro ending starting
  obtain ⟨-, hread, hdiffer⟩ := client_reads_back
  exact ⟨hread (.bare ending) ending rfl,
    hdiffer (.bare ending) (.bare starting) ending starting rfl rfl (by decide)⟩

end Exchange
end Bearer
