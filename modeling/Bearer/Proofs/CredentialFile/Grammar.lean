import Bearer.CredentialFile.Load
import Bearer.Proofs.CredentialFile.Shape
import Bearer.Proofs.Iam.Address

namespace Bearer

namespace SubjectToken

/-- The settings tell where the token is, and how to find it there. -/
structure Section.MakesSense (s : Section) : Prop where
  fieldName : s.isJson = true → s.fieldName.filled?.isSome
  environmentId : s.environmentId.filled? = none
  source : s.file.filled?.isSome ∨ s.url.filled?.isSome

end SubjectToken

namespace CredentialFile

open Json.Members (get?)

def IsText (j : Json) : Prop := ∃ s, j = .string s

def IsFilled (j : Json) : Prop := ∃ s, j = .string s ∧ s ≠ ""

/-- The member is there, and one of these. -/
def Has (P : Json → Prop) (ms : Json.Members) (name : String) : Prop :=
  ∃ j, get? ms name = some j ∧ P j

/-- The member is left out, null, or one of these. -/
def MayHave (P : Json → Prop) (ms : Json.Members) (name : String) : Prop :=
  ∀ j, get? ms name = some j → j = .null ∨ P j

/-- A text in which the platform reads a private key. -/
def IsKey (keys : Crypto.KeyReader) (j : Json) : Prop := ∃ s key, j = .string s ∧ keys s = some key

structure IsServiceAccount (keys : Crypto.KeyReader) (ms : Json.Members) : Prop where
  type : Has (· = .string serviceAccountType) ms "type"
  clientEmail : Has IsFilled ms "client_email"
  privateKey : Has IsFilled ms "private_key"
  usableKey : Has (IsKey keys) ms "private_key"
  privateKeyId : Has IsFilled ms "private_key_id"
  clientId : MayHave IsText ms "client_id"
  projectId : MayHave IsText ms "project_id"
  quotaProjectId : MayHave IsText ms "quota_project_id"
  tokenUri : MayHave IsText ms "token_uri"

structure IsUser (ms : Json.Members) : Prop where
  type : Has (· = .string userType) ms "type"
  clientId : Has IsFilled ms "client_id"
  clientSecret : Has IsFilled ms "client_secret"
  refreshToken : Has IsFilled ms "refresh_token"
  quotaProjectId : MayHave IsText ms "quota_project_id"

/-- How a source keeps its token; within a document it has to be found. -/
structure IsFormat (ms : Json.Members) : Prop where
  type : Has (fun j => j = .string "text" ∨ j = .string "json") ms "type"
  fieldName : MayHave IsFilled ms "subject_token_field_name"
  needed : Has (· = .string "json") ms "type" → Has IsFilled ms "subject_token_field_name"

structure IsSource (ms : Json.Members) : Prop where
  file : MayHave IsFilled ms "file"
  url : MayHave IsFilled ms "url"
  either : Has IsFilled ms "file" ∨ Has IsFilled ms "url"
  headers : MayHave (fun j => ∃ hs, j = .object hs ∧ ∀ h ∈ hs, IsText h.2) ms "headers"
  environmentId : MayHave (· = .string "") ms "environment_id"
  format : MayHave (fun j => ∃ f, j = .object f ∧ IsFormat f) ms "format"

structure IsExternalAccount (ms : Json.Members) : Prop where
  type : Has (· = .string externalAccountType) ms "type"
  audience : Has IsFilled ms "audience"
  subjectTokenType : Has IsFilled ms "subject_token_type"
  tokenUrl : Has IsFilled ms "token_url"
  source : Has (fun j => ∃ s, j = .object s ∧ IsSource s) ms "credential_source"
  impersonationUrl : MayHave (fun j => ∃ url, j = .string url ∧
    (url = "" ∨ ∃ account, Iam.Names url account)) ms "service_account_impersonation_url"
  tokenInfoUrl : MayHave IsText ms "token_info_url"
  clientId : MayHave IsText ms "client_id"
  clientSecret : MayHave IsText ms "client_secret"
  quotaProjectId : MayHave IsText ms "quota_project_id"

/-- The document is an object of one of the three types. -/
def IsCredential (keys : Crypto.KeyReader) (j : Json) : Prop :=
  ∃ ms, j = .object ms ∧ (IsServiceAccount keys ms ∨ IsUser ms ∨ IsExternalAccount ms)

section
variable {P : Json → Prop} {ms : Json.Members} {name : String} {j : Json}

theorem has_iff : Has P ms name ↔
    (get? ms name).isSome ∧ ∀ j, get? ms name = some j → P j := by
  unfold Has
  cases get? ms name <;> simp

theorem one_le_length {s : String} : 1 ≤ s.length ↔ s ≠ "" := by
  rw [Nat.one_le_iff_ne_zero, ne_eq, ne_eq, String.length_eq_zero_iff]

theorem fits_plain : Shape.plain.Fits j ↔ IsText j := by
  simp [Shape.plain, Shape.Fits, IsText]

theorem fits_filled : Shape.filled.Fits j ↔ IsFilled j := by
  simp [Shape.filled, Shape.Fits, IsFilled, one_le_length]

theorem fits_optional : Shape.optional.Fits j ↔ j = .null ∨ IsText j := by
  simp [Shape.optional, Shape.Fits, IsText]

theorem fits_optional_filled : (Shape.text 1 [] true).Fits j ↔ j = .null ∨ IsFilled j := by
  simp [Shape.Fits, IsFilled, one_le_length]

theorem fits_typeShape {type : String} : (typeShape type).Fits j ↔ j = .string type := by
  simp [typeShape, Shape.Fits]

theorem fits_formatType :
    (Shape.text 0 ["text", "json"] false).Fits j ↔ j = .string "text" ∨ j = .string "json" := by
  simp only [Shape.Fits, Bool.false_eq_true, false_and, false_or, Nat.zero_le, true_and,
    reduceCtorEq, List.mem_cons, List.not_mem_nil, or_false]
  constructor
  · rintro ⟨s, rfl, rfl | rfl⟩
    · exact .inl rfl
    · exact .inr rfl
  · rintro (rfl | rfl)
    · exact ⟨_, rfl, .inl rfl⟩
    · exact ⟨_, rfl, .inr rfl⟩

theorem fits_headers : (Shape.object [] [] (some .plain) true).Fits j ↔
    j = .null ∨ ∃ hs, j = .object hs ∧ ∀ h ∈ hs, IsText h.2 := by
  simp [Shape.Fits, Shape.MembersFit, Shape.OthersFit, Shape.unknown, fits_plain]

/-- What a shape asks of an object, where it has nothing to say about other members. -/
theorem fits_object {members : List (String × Shape)} {required : List String} :
    (Shape.object members required none false).Fits j ↔
      ∃ ms, j = .object ms ∧ (∀ name ∈ required, (get? ms name).isSome) ∧
        Shape.MembersFit members ms := by
  simp [Shape.Fits, Shape.OthersFit]

theorem fits_optional_object {members : List (String × Shape)} {required : List String} :
    (Shape.object members required none true).Fits j ↔
      j = .null ∨ ∃ ms, j = .object ms ∧ (∀ name ∈ required, (get? ms name).isSome) ∧
        Shape.MembersFit members ms := by
  simp [Shape.Fits, Shape.OthersFit]

theorem fits_serviceAccountShape {keys : Crypto.KeyReader} :
    serviceAccountShape.Fits j ∧ Has (IsKey keys) (j.members?.getD []) "private_key" ↔
      ∃ ms, j = .object ms ∧ IsServiceAccount keys ms := by
  simp only [serviceAccountShape, fits_object, Shape.MembersFit, fits_typeShape, fits_filled,
    fits_optional, List.forall_mem_cons]
  constructor
  · rintro ⟨⟨ms, rfl, ⟨type, email, key, keyId, -⟩, isType, id, isEmail, isKey, isKeyId, project,
      quota, token, -⟩, usable⟩
    exact ⟨ms, rfl,
      { type := has_iff.mpr ⟨type, isType⟩
        clientEmail := has_iff.mpr ⟨email, isEmail⟩
        privateKey := has_iff.mpr ⟨key, isKey⟩
        usableKey := usable
        privateKeyId := has_iff.mpr ⟨keyId, isKeyId⟩
        clientId := id
        projectId := project
        quotaProjectId := quota
        tokenUri := token }⟩
  · rintro ⟨ms, rfl, h⟩
    obtain ⟨type, isType⟩ := has_iff.mp h.type
    obtain ⟨email, isEmail⟩ := has_iff.mp h.clientEmail
    obtain ⟨key, isKey⟩ := has_iff.mp h.privateKey
    obtain ⟨keyId, isKeyId⟩ := has_iff.mp h.privateKeyId
    exact ⟨⟨ms, rfl, ⟨type, email, key, keyId, nofun⟩, isType, h.clientId, isEmail, isKey, isKeyId,
      h.projectId, h.quotaProjectId, h.tokenUri, trivial⟩, h.usableKey⟩

theorem fits_userShape : userShape.Fits j ↔ ∃ ms, j = .object ms ∧ IsUser ms := by
  simp only [userShape, fits_object, Shape.MembersFit, fits_typeShape, fits_filled,
    fits_optional, List.forall_mem_cons]
  refine exists_congr fun ms => and_congr_right fun _ => ?_
  constructor
  · rintro ⟨⟨type, id, secret, token, -⟩, isType, isId, isSecret, isToken, quota, -⟩
    exact
      { type := has_iff.mpr ⟨type, isType⟩
        clientId := has_iff.mpr ⟨id, isId⟩
        clientSecret := has_iff.mpr ⟨secret, isSecret⟩
        refreshToken := has_iff.mpr ⟨token, isToken⟩
        quotaProjectId := quota }
  · intro h
    obtain ⟨type, isType⟩ := has_iff.mp h.type
    obtain ⟨id, isId⟩ := has_iff.mp h.clientId
    obtain ⟨secret, isSecret⟩ := has_iff.mp h.clientSecret
    obtain ⟨token, isToken⟩ := has_iff.mp h.refreshToken
    exact ⟨⟨type, id, secret, token, nofun⟩, isType, isId, isSecret, isToken, h.quotaProjectId,
      trivial⟩

theorem fits_formatShape : formatShape.Fits j ↔ j = .null ∨ ∃ ms, j = .object ms ∧
    Has (fun j => j = .string "text" ∨ j = .string "json") ms "type" ∧
    MayHave IsFilled ms "subject_token_field_name" := by
  simp only [formatShape, fits_optional_object, Shape.MembersFit, fits_formatType,
    fits_optional_filled, List.forall_mem_singleton, has_iff, and_true, and_assoc, MayHave]

theorem fits_sourceShape : sourceShape.Fits j ↔ ∃ ms, j = .object ms ∧
    MayHave IsFilled ms "file" ∧ MayHave IsFilled ms "url" ∧
    MayHave (fun j => ∃ hs, j = .object hs ∧ ∀ h ∈ hs, IsText h.2) ms "headers" ∧
    MayHave IsText ms "environment_id" ∧
    ∀ j, get? ms "format" = some j → formatShape.Fits j := by
  simp only [sourceShape, fits_object, Shape.MembersFit, fits_optional, fits_optional_filled,
    fits_headers, List.not_mem_nil, false_implies, implies_true, true_and, and_true, MayHave]

theorem toOption_text {s : String} :
    (Json.Members.text ms name).toOption = some s ↔ get? ms name = some (.string s) := by
  unfold Json.Members.text Json.Members.setting
  cases get? ms name with
  | none => simp [Given.toOption]
  | some j => cases j <;> simp [Given.toOption, Given.ofOption, Json.string?]

theorem filled?_text {s : String} :
    (Json.Members.text ms name).filled? = some s ↔ get? ms name = some (.string s) ∧ s ≠ "" := by
  simp [Given.filled?, Option.filter_eq_some_iff, toOption_text]

theorem has_isFilled :
    Has IsFilled ms name ↔ ∃ s, get? ms name = some (.string s) ∧ s ≠ "" := by
  constructor
  · rintro ⟨_, hs, s, rfl, hne⟩
    exact ⟨s, hs, hne⟩
  · rintro ⟨s, hs, hne⟩
    exact ⟨_, hs, s, rfl, hne⟩

theorem isSome_filled?_text :
    ((Json.Members.text ms name).filled?).isSome ↔ Has IsFilled ms name := by
  simp only [Option.isSome_iff_exists, filled?_text, has_isFilled]

/-- A text within the format of a source. -/
theorem toOption_format {s : String} :
    (((get? ms "format").bind Json.members?).bind fun f => (f.text name).toOption) = some s ↔
      ∃ f, get? ms "format" = some (.object f) ∧ get? f name = some (.string s) := by
  simp only [Option.bind_eq_some_iff, toOption_text]
  constructor
  · rintro ⟨f, ⟨j, hj, hf⟩, hs⟩
    cases j <;> cases hf
    exact ⟨f, hj, hs⟩
  · rintro ⟨f, hf, hs⟩
    exact ⟨f, ⟨_, hf, rfl⟩, hs⟩

theorem isJson_sourceSection : (sourceSection (.object ms)).isJson = true ↔
    ∃ f, get? ms "format" = some (.object f) ∧ Has (· = .string "json") f "type" := by
  have htype : (sourceSection (.object ms)).isJson
      = decide ((((get? ms "format").bind Json.members?).bind
          fun f => (f.text "type").toOption) = some "json") := rfl
  rw [htype, decide_eq_true_iff, toOption_format]
  simp [Has]

theorem isSome_fieldName_sourceSection :
    ((sourceSection (.object ms)).fieldName.filled?).isSome ↔
      ∃ f, get? ms "format" = some (.object f) ∧ Has IsFilled f "subject_token_field_name" := by
  have hfield : (sourceSection (.object ms)).fieldName
      = .ofOption (((get? ms "format").bind Json.members?).bind
          fun f => (f.text "subject_token_field_name").toOption) := rfl
  have hofOption : ∀ o : Option String, (Given.ofOption o).filled? = o.filter (· ≠ "") :=
    fun o => by cases o <;> rfl
  simp only [hfield, hofOption, Option.isSome_iff_exists, Option.filter_eq_some_iff,
    toOption_format, has_isFilled, decide_eq_true_eq]
  constructor
  · rintro ⟨s, ⟨f, hf, hs⟩, hne⟩
    exact ⟨f, hf, s, hs, hne⟩
  · rintro ⟨f, hf, s, hs, hne⟩
    exact ⟨s, ⟨f, hf, hs⟩, hne⟩

theorem isSource_of_fits (hfits : sourceShape.Fits j) (hsense : (sourceSection j).MakesSense) :
    ∃ ms, j = .object ms ∧ IsSource ms := by
  obtain ⟨ms, rfl, file, url, headers, environment, format⟩ := fits_sourceShape.mp hfits
  refine ⟨ms, rfl, file, url, hsense.source.imp isSome_filled?_text.mp isSome_filled?_text.mp,
    headers, fun j hj => ?_, fun j hj => ?_⟩
  · obtain rfl | ⟨s, rfl⟩ := environment j hj
    · exact .inl rfl
    · right
      by_contra hs
      have hfilled := filled?_text.mpr ⟨hj, fun h => hs (congrArg Json.string h)⟩
      exact Option.some_ne_none _ (hfilled.symm.trans hsense.environmentId)
  · obtain rfl | ⟨f, rfl, type, field⟩ := fits_formatShape.mp (format j hj)
    · exact .inl rfl
    · refine .inr ⟨f, rfl, type, field, fun hjson => ?_⟩
      obtain ⟨_, hf, hfilled⟩ := isSome_fieldName_sourceSection.mp
        (hsense.fieldName (isJson_sourceSection.mpr ⟨f, hj, hjson⟩))
      obtain rfl := Json.object.inj (Option.some.inj (hj.symm.trans hf))
      exact hfilled

theorem IsSource.fits (h : IsSource ms) : sourceShape.Fits (.object ms) := by
  refine fits_sourceShape.mpr ⟨ms, rfl, h.file, h.url, h.headers, fun j hj => ?_, fun j hj => ?_⟩
  · exact (h.environmentId j hj).imp_right fun hs => ⟨"", hs⟩
  · exact fits_formatShape.mpr
      ((h.format j hj).imp_right fun ⟨f, hf, hformat⟩ => ⟨f, hf, hformat.type, hformat.fieldName⟩)

theorem IsSource.makesSense (h : IsSource ms) : (sourceSection (.object ms)).MakesSense where
  fieldName hjson := by
    obtain ⟨f, hf, hjson⟩ := isJson_sourceSection.mp hjson
    obtain hnull | ⟨_, hobject, hformat⟩ := h.format _ hf
    · cases hnull
    · obtain rfl := Json.object.inj hobject
      exact isSome_fieldName_sourceSection.mpr ⟨f, hf, hformat.needed hjson⟩
  environmentId := by
    by_contra hsome
    obtain ⟨s, hs⟩ := Option.ne_none_iff_exists'.mp hsome
    obtain ⟨hget, hne⟩ := filled?_text.mp hs
    obtain hnull | hempty := h.environmentId _ hget
    · cases hnull
    · exact hne (Json.string.inj hempty)
  source := h.either.imp isSome_filled?_text.mpr isSome_filled?_text.mpr

/-- The address is that of an account, if there is an address. -/
def NamesOne (ms : Json.Members) (name : String) : Prop :=
  ∀ url, (Json.Members.text ms name).filled? = some url → ∃ account, Iam.Names url account

theorem mayHave_names : MayHave (fun j => ∃ url, j = .string url ∧
      (url = "" ∨ ∃ account, Iam.Names url account)) ms name ↔
    MayHave IsText ms name ∧ NamesOne ms name := by
  constructor
  · refine fun h => ⟨fun j hj => ?_, fun url hurl => ?_⟩
    · exact (h j hj).imp_right fun ⟨url, hurl, _⟩ => ⟨url, hurl⟩
    · obtain ⟨hget, hne⟩ := filled?_text.mp hurl
      obtain hnull | ⟨_, hstring, hnames⟩ := h _ hget
      · cases hnull
      · cases hstring
        exact hnames.resolve_left hne
  · rintro ⟨htext, hnames⟩ j hj
    obtain rfl | ⟨url, rfl⟩ := htext j hj
    · exact .inl rfl
    · refine .inr ⟨url, rfl, ?_⟩
      by_cases hne : url = ""
      · exact .inl hne
      · exact .inr (hnames url (filled?_text.mpr ⟨hj, hne⟩))

theorem filled_of_fits (h : externalAccountShape.Fits j) :
    Has IsFilled (j.members?.getD []) "audience" ∧
      Has IsFilled (j.members?.getD []) "subject_token_type" ∧
      Has IsFilled (j.members?.getD []) "token_url" := by
  simp only [externalAccountShape, fits_object, Shape.MembersFit, fits_filled,
    List.forall_mem_cons] at h
  obtain ⟨ms, rfl, ⟨-, audience, type, url, -⟩, -, isAudience, isType, isUrl, -⟩ := h
  exact ⟨has_iff.mpr ⟨audience, isAudience⟩, has_iff.mpr ⟨type, isType⟩,
    has_iff.mpr ⟨url, isUrl⟩⟩

theorem fits_externalAccountShape :
    externalAccountShape.Fits j ∧
        (sourceSection ((get? (j.members?.getD []) "credential_source").getD .null)).MakesSense ∧
        NamesOne (j.members?.getD []) "service_account_impersonation_url" ↔
      ∃ ms, j = .object ms ∧ IsExternalAccount ms := by
  simp only [externalAccountShape, fits_object, Shape.MembersFit, fits_typeShape, fits_filled,
    fits_optional, List.forall_mem_cons]
  constructor
  · rintro ⟨⟨ms, rfl, ⟨type, audience, tokenType, url, source, -⟩, isType, isAudience, isTokenType,
      isUrl, isSource, info, impersonation, id, secret, quota, -⟩, sense, names⟩
    refine ⟨ms, rfl,
      { type := has_iff.mpr ⟨type, isType⟩
        audience := has_iff.mpr ⟨audience, isAudience⟩
        subjectTokenType := has_iff.mpr ⟨tokenType, isTokenType⟩
        tokenUrl := has_iff.mpr ⟨url, isUrl⟩
        source := ?_
        impersonationUrl := mayHave_names.mpr ⟨impersonation, names⟩
        tokenInfoUrl := info
        clientId := id
        clientSecret := secret
        quotaProjectId := quota }⟩
    obtain ⟨j, hj⟩ := Option.isSome_iff_exists.mp source
    have hsense : (sourceSection j).MakesSense := by
      simpa only [Json.members?, Option.getD_some, hj] using sense
    exact ⟨j, hj, isSource_of_fits (isSource j hj) hsense⟩
  · rintro ⟨ms, rfl, h⟩
    obtain ⟨type, isType⟩ := has_iff.mp h.type
    obtain ⟨audience, isAudience⟩ := has_iff.mp h.audience
    obtain ⟨tokenType, isTokenType⟩ := has_iff.mp h.subjectTokenType
    obtain ⟨url, isUrl⟩ := has_iff.mp h.tokenUrl
    obtain ⟨impersonation, names⟩ := mayHave_names.mp h.impersonationUrl
    obtain ⟨_, hsource, source, rfl, isSource⟩ := h.source
    refine ⟨⟨ms, rfl, ⟨type, audience, tokenType, url, ?_, nofun⟩, isType, isAudience, isTokenType,
      isUrl, fun j hj => ?_, h.tokenInfoUrl, impersonation, h.clientId, h.clientSecret,
      h.quotaProjectId, trivial⟩, ?_, names⟩
    · rw [hsource, Option.isSome_some]
    · obtain rfl := Option.some.inj (hsource.symm.trans hj)
      exact isSource.fits
    · simpa only [Json.members?, Option.getD_some, hsource] using isSource.makesSense

end

end CredentialFile
end Bearer
