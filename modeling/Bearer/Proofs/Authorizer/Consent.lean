import Bearer.Authorizer
import Bearer.Proofs.Text.Units
import Bearer.Proofs.Url.Marks

namespace Bearer.Authorizer

open Text (Utf16)
open Text.Form (Fields setAll)

/-- Under this name the fields hold this value, and nothing else. -/
def TellsOnce (fields : Fields) (name value : String) : Prop :=
  fields.filter (fun f => f.1 = name) = [(name, value)]

namespace Consent

def toldNames (c : Consent) : List String :=
  ["response_type", "client_id", "redirect_uri", "scope", "access_type", "approval_prompt"]
    ++ (if (told? c.state).isSome then ["state"] else [])
    ++ if (told? c.user).isSome then ["login_hint"] else []

/-- The fields but for those under which the consent page is told something. -/
def untold (c : Consent) (fields : Fields) : Fields := fields.filter fun f => f.1 ∉ c.toldNames

variable {c : Consent}

theorem url_eq (c : Consent) (page : Url) :
    c.url page = page.withFields (setAll page.fields (Http.formFields c.form)) := rfl

/-- The page is told something once under each name. -/
theorem names_form (c : Consent) :
    List.Perm ((Http.formFields c.form).map Prod.fst) c.toldNames := by
  unfold form toldNames Http.formFields
  cases told? c.state <;> cases told? c.user <;>
    simp only [List.filterMap_cons, Option.map_some, Option.map_none, List.filterMap_nil,
      List.map_cons, List.map_nil, Option.isSome_some, Option.isSome_none, if_true,
      Utf16.repaired_ofString] <;> decide

theorem nodup_toldNames (c : Consent) : c.toldNames.Nodup := by
  unfold toldNames
  split <;> split <;> decide

/-- What the page is told is in the query of its address, and all else that was there. -/
theorem tellsOnce_url (fields : Fields) {name : String} {value : Utf16}
    (h : (↑name, some value) ∈ c.form) :
    TellsOnce (setAll fields (Http.formFields c.form)) name value.repaired := by
  have hfield : (name, value.repaired) ∈ Http.formFields c.form :=
    List.mem_filterMap.mpr ⟨_, h, by simp⟩
  exact Text.Form.filter_setAll_of_mem (c.names_form.nodup_iff.mpr c.nodup_toldNames) hfield _

theorem untold_url (fields : Fields) :
    c.untold (setAll fields (Http.formFields c.form)) = c.untold fields := by
  refine Text.Form.filter_setAll_others (p := fun name => name ∉ c.toldNames) _ ?_ fields
  intro f hf
  have hname := c.names_form.mem_iff.mp (List.mem_map_of_mem hf)
  simpa using hname

/-- What whoever reads the address of a page finds there, once the page has been told of all
this. -/
structure Told (c : Consent) (page url : Url) : Prop where
  response : TellsOnce url.fields "response_type" "code"
  client : TellsOnce url.fields "client_id" c.client.repaired
  callback : TellsOnce url.fields "redirect_uri" c.callback.repaired
  scopes : TellsOnce url.fields "scope" (" ".intercalate (c.scopes.map Utf16.repaired))
  access : TellsOnce url.fields "access_type" "offline"
  prompt : TellsOnce url.fields "approval_prompt" "force"
  state : ∀ value, told? c.state = some value →
    TellsOnce url.fields "state" value.repaired
  user : ∀ value, told? c.user = some value →
    TellsOnce url.fields "login_hint" value.repaired
  others : c.untold url.fields = c.untold page.fields
  rest : { url with query := page.query } = page
  /-- In the text of an address of the web the query is found where it belongs. -/
  text : page.isWeb → Url.fieldsIn url.text = url.fields

theorem told {text : String} {page : Url} (hpage : Url.read? text = some page) (c : Consent) :
    c.Told page (c.url page) := by
  have hfields : (c.url page).fields = setAll page.fields (Http.formFields c.form) := by
    rw [url_eq, Url.fields_withFields]
  have htells {name value : String} {t : Utf16} (h : (↑name, some t) ∈ c.form)
      (ht : t.repaired = value) : TellsOnce (c.url page).fields name value := by
    rw [hfields, ← ht]
    exact tellsOnce_url page.fields h
  refine
    { response := htells (t := "code") (by simp [form]) (by simp)
      client := htells (by simp [form]) rfl
      callback := htells (by simp [form]) rfl
      scopes := htells (by simp [form]) (Utf16.repaired_joined _)
      access := htells (t := "offline") (by simp [form]) (by simp)
      prompt := htells (t := "force") (by simp [form]) (by simp)
      state := fun value h => htells (t := value) (by simp [form, h]) rfl
      user := fun value h => htells (t := value) (by simp [form, h]) rfl
      others := by rw [hfields, untold_url]
      rest := rfl
      text := fun hweb => ?_ }
  -- The front of the address is that of the page.
  have hfront := Url.unmarked_front hpage hweb
  rw [url_eq, Url.fieldsIn_text (by exact hfront) (Url.number_not_mem_withFields _ _),
    Url.fields_withFields]

end Consent

variable {a : Authorizer} {page : Url} {callback : String} {base : Given String}

theorem consentUrl_eq
    (hpage : Url.read? (a.authorizationUri.getD Google.authorizationUrl) = some page)
    (hcallback : a.callback base = .ok callback) (user state : Given Utf16) :
    a.consentUrl user state base = .ok ((a.consent callback user state).url page) := by
  have haddress : address (a.authorizationUri.getD Google.authorizationUrl) = .ok page := by
    rw [address, hpage]
  rw [consentUrl, haddress, hcallback]
  rfl

/-- If the address of the consent page is one, and there is an address to send people back to,
then the page is told what it should know. Whoever reads the query of its address as a form finds
there, once each and as they were given, the response type, the client, the address to come back
to, the scopes, the access type and the prompt, and the state and the user if they were given; all
other fields that the query had are there as they were and in their order; and nothing else of the
address changes. A text of whole characters is found exactly as it was given, and of any other one
only the halves of pairs that are left alone are replaced. -/
theorem consent_url_tells
    (hpage : Url.read? (a.authorizationUri.getD Google.authorizationUrl) = some page)
    (hcallback : a.callback base = .ok callback) (user state : Given Utf16) :
    (∃ url, a.consentUrl user state base = .ok url ∧
      (a.consent callback user state).Told page url) ∧
    (∀ c : Consent, c.Told page (c.url page)) ∧
    (∀ s : String, (Utf16.ofString s).repaired = s) ∧
    ∀ (t : Utf16) i, (Utf16.ofString t.repaired).numbers[i]? =
      t.numbers[i]?.map fun u => if Text.Units.IsLone t.numbers i then 0xFFFD else u :=
  ⟨⟨_, consentUrl_eq hpage hcallback user state, Consent.told hpage _⟩, Consent.told hpage,
    Utf16.repaired_ofString, Utf16.numbers_repaired⟩

/-- An application whose consent page has a query already, and asks for a state in it. -/
def asking : Authorizer :=
  { client := { id := "app&id" }
    scopes := ["scope-a", "scope-b"]
    callbackUri := .value "https://app.example/back?x=1"
    authorizationUri := .value "https://page.example/auth?state=a&keep=x%26y&state=b&keep=z#top" }

def askingPage : Url :=
  { scheme := "https".toList
    host := some "page.example".toList
    path := .segments ["auth".toList]
    query := some "state=a&keep=x%26y&state=b&keep=z".toList
    fragment := some "top".toList }

theorem read?_asking :
    Url.read? (asking.authorizationUri.getD Google.authorizationUrl) = some askingPage := by rfl

theorem callback_asking : asking.callback .missing = .ok "https://app.example/back?x=1" := by rfl

/-- A state full of separators replaces those of the page, and what else the page had stays. -/
theorem consent_url_tells_state :
    let state := Utf16.ofString "s&t=u+v %"
    Url.read? (asking.authorizationUri.getD Google.authorizationUrl) = some askingPage ∧
      asking.callback .missing = .ok "https://app.example/back?x=1" ∧
      ∃ url, asking.consentUrl .missing (.value state) .missing = .ok url ∧
        TellsOnce (Url.fieldsIn url.text) "state" "s&t=u+v %" ∧
        (asking.consent "https://app.example/back?x=1" .missing (.value state)).untold
          (Url.fieldsIn url.text) = [("keep", "x&y"), ("keep", "z")] := by
  intro state
  obtain ⟨⟨url, hurl, htold⟩, -, hwhole, -⟩ :=
    consent_url_tells read?_asking callback_asking .missing (.value state)
  have hfields : Url.fieldsIn url.text = url.fields := htold.text (.inr rfl)
  refine ⟨read?_asking, callback_asking, url, hurl, ?_, ?_⟩
  · rw [hfields, ← hwhole "s&t=u+v %"]
    exact htold.state _ rfl
  · rw [hfields, htold.others]
    decide +kernel

/-- Half of a pair as a state is not told as it is: what comes back is the replacement, which is
another state. -/
theorem lone_half_is_not_told :
    let state : Utf16 := ⟨[0xD800]⟩
    state ≠ .ofString "\uFFFD" ∧
      ∃ url, asking.consentUrl .missing (.value state) .missing = .ok url ∧
        TellsOnce (Url.fieldsIn url.text) "state" "\uFFFD" := by
  intro state
  have htold := Consent.told read?_asking
    (asking.consent "https://app.example/back?x=1" .missing (.value state))
  have hreplaced : state.repaired = "\uFFFD" := by decide
  refine ⟨by decide, _, consentUrl_eq read?_asking callback_asking .missing (.value state), ?_⟩
  rw [htold.text (.inr rfl), ← hreplaced]
  exact htold.state _ rfl

end Bearer.Authorizer
