import Bearer.Proofs.CredentialFile.Grammar
import Bearer.Proofs.CredentialFile.Known
import Bearer.Proofs.Decisions

namespace Bearer

namespace SubjectToken

theorem Section.decides_format (s : Section) :
    Result.Decides (s.isJson = true → s.fieldName.filled?.isSome) (fun _ => True) s.format := by
  unfold Section.format
  cases s.isJson with
  | false => exact (Result.Decides.ok trivial).congr (by simp)
  | true =>
    cases s.fieldName.filled? with
    | some field => exact (Result.Decides.ok trivial).congr (by simp)
    | none => exact (Result.Decides.raise rfl).congr (by simp)

theorem Source.decides_ofSection (s : Section) :
    Result.Decides s.MakesSense (fun _ => True) (Source.ofSection s) := by
  refine (s.decides_format.bind
    (B := s.environmentId.filled? = none ∧ (s.file.filled?.isSome ∨ s.url.filled?.isSome))
    fun format _ => ?_).congr
      ⟨fun h => ⟨h.1, h.2.1, h.2.2⟩, fun h => ⟨h.fieldName, h.environmentId, h.source⟩⟩
  cases s.environmentId.filled? with
  | some id => exact (Result.Decides.raise rfl).congr (by simp)
  | none =>
    cases s.file.filled? with
    | some path => exact (Result.Decides.ok trivial).congr (by simp)
    | none =>
      cases s.url.filled? with
      | some address => exact (Result.Decides.ok trivial).congr (by simp)
      | none => exact (Result.Decides.raise rfl).congr (by simp)

end SubjectToken

/-- A user who granted a refresh token needs no other token. -/
theorem User.credential_of_isSome {c : User} {setup : Credential.Setup}
    (h : c.refreshToken.filled?.isSome) :
    c.credential setup = .ok { setup with kind := .user c } := by
  obtain ⟨token, htoken⟩ := Option.isSome_iff_exists.mp h
  simp [User.credential, htoken]

namespace ExternalAccount

theorem decides_ofSettings {s : Settings} (haudience : s.audience.filled?.isSome)
    (htype : s.subjectTokenType.filled?.isSome) (hurl : s.tokenUrl.filled?.isSome) :
    Result.Decides True (fun c => c.impersonationUrl = s.impersonationUrl) (ofSettings s) := by
  obtain ⟨audience, haudience⟩ := Option.isSome_iff_exists.mp haudience
  obtain ⟨type, htype⟩ := Option.isSome_iff_exists.mp htype
  obtain ⟨url, hurl⟩ := Option.isSome_iff_exists.mp hurl
  simp only [ofSettings, required, haudience, htype, hurl]
  exact Result.Decides.ok rfl

/-- The address of an impersonation is read before anything is made. -/
theorem decides_createCredential (c : ExternalAccount) (setup : Credential.Setup) :
    Procedure.Decides
      (∀ url, c.impersonationUrl.filled? = some url → ∃ account, Iam.Names url account)
      (fun made => (∃ a, made.kind = .externalAccount a) ∧ made.toSetup = setup)
      (c.createCredential setup) := by
  unfold createCredential prepared
  cases hurl : c.impersonationUrl.filled? with
  | none => exact (Procedure.Decides.create ⟨⟨_, rfl⟩, rfl⟩).congr (by simp)
  | some url =>
    simp only [createImpersonated, Iam.targetPrincipal]
    cases htarget : Iam.targetPrincipal? url with
    | some account =>
      have hnames := Iam.targetPrincipal?_eq_some.mp htarget
      refine ⟨fun _ => ?_, fun h => absurd (fun _ h => Option.some.inj h ▸ ⟨account, hnames⟩) h⟩
      exact .before fun _ => .before fun _ => .last ⟨⟨_, rfl⟩, rfl⟩
    | none =>
      refine ⟨fun h => ?_, fun _ => ⟨_, rfl, rfl⟩⟩
      obtain ⟨account, hnames⟩ := h url rfl
      rw [Iam.targetPrincipal?_eq_some.mpr hnames] at htarget
      cases htarget

end ExternalAccount

namespace CredentialFile

open Json.Members (get?)

/-- The type of the documents that describe credentials of a kind. -/
def type? : Credential.Kind → Option String
  | .serviceAccount _ => some serviceAccountType
  | .user _ => some userType
  | .externalAccount _ => some externalAccountType
  | _ => none

/-- The credential is of the kind that the document describes, on the bill of the project that the
document names, and otherwise as it was to be set up. -/
structure IsLoaded (j : Json) (setup : Credential.Setup) (c : Credential) : Prop where
  kind : (type? c.kind).map Json.string = some (typeOf j)
  setup : c.toSetup =
    { setup with quotaProject := Json.Members.text (j.members?.getD []) "quota_project_id" }

variable {keys : Crypto.KeyReader} {j : Json} {setup : Credential.Setup}

theorem decides_check (shape : Shape) (kind : String) (j : Json) :
    Result.Decides (shape.Fits j) (fun ms => ms = j.members?.getD [] ∧ shape.Fits j)
      (check shape kind j) := by
  have hfits := Shape.departure?_eq_none shape [] j
  unfold check
  cases hdeparture : shape.departure? [] j with
  | some d =>
    rw [hdeparture] at hfits
    exact (Result.Decides.raise rfl).congr (by simpa using hfits)
  | none =>
    rw [hdeparture] at hfits
    exact (Result.Decides.ok ⟨rfl, hfits.mp rfl⟩).congr (by simpa using hfits)

theorem decides_key (ms : Json.Members) (name : String) :
    Result.Decides (Has (IsKey keys) ms name) (fun _ => True)
      (Crypto.PrivateKey.ofSetting keys (Json.Members.text ms name)) := by
  have hkey : Has (IsKey keys) ms name ↔
      ∃ key, (Json.Members.text ms name).toOption.bind keys = some key := by
    simp only [Option.bind_eq_some_iff, toOption_text]
    constructor
    · rintro ⟨_, hs, s, key, rfl, hkey⟩
      exact ⟨key, s, hs, hkey⟩
    · rintro ⟨key, s, hs, hkey⟩
      exact ⟨_, hs, s, key, rfl, hkey⟩
  unfold Crypto.PrivateKey.ofSetting
  cases hfound : (Json.Members.text ms name).toOption.bind keys with
  | some key => exact (Result.Decides.ok trivial).congr (by simp [hkey, hfound])
  | none => exact (Result.Decides.raise rfl).congr (by simp [hkey, hfound])

theorem decides_serviceAccount (htype : typeOf j = .string serviceAccountType) :
    Result.Decides (∃ ms, j = .object ms ∧ IsServiceAccount keys ms) (IsLoaded j setup)
      (serviceAccount keys j setup) := by
  refine ((decides_check serviceAccountShape "service account" j).bind
    (B := Has (IsKey keys) (j.members?.getD []) "private_key" ∧ True) ?_).congr ?_
  · rintro _ ⟨rfl, -⟩
    exact (decides_key _ "private_key").bind fun key _ =>
      Result.Decides.ok { kind := by rw [htype]; rfl, setup := rfl }
  · rw [and_true]
    exact fits_serviceAccountShape

theorem decides_user (htype : typeOf j = .string userType) :
    Result.Decides (∃ ms, j = .object ms ∧ IsUser ms) (IsLoaded j setup) (user j setup) := by
  refine ((decides_check userShape "authorized user" j).bind (B := True) ?_).congr ?_
  · rintro _ ⟨rfl, hfits⟩
    obtain ⟨ms, rfl, h⟩ := fits_userShape.mp hfits
    rw [User.credential_of_isSome (isSome_filled?_text.mpr h.refreshToken)]
    exact Result.Decides.ok { kind := by rw [htype]; rfl, setup := rfl }
  · rw [and_true]
    exact fits_userShape

theorem decides_externalSettings (ms : Json.Members) :
    Result.Decides
      (sourceSection ((get? ms "credential_source").getD .null)).MakesSense
      (fun s => s.audience = Json.Members.text ms "audience" ∧
        s.subjectTokenType = Json.Members.text ms "subject_token_type" ∧
        s.tokenUrl = Json.Members.text ms "token_url" ∧
        s.impersonationUrl = Json.Members.text ms "service_account_impersonation_url")
      (externalSettings ms) :=
  ((SubjectToken.Source.decides_ofSection _).bind fun _ _ =>
    Result.Decides.ok ⟨rfl, rfl, rfl, rfl⟩).congr (iff_of_eq (and_true _))

theorem decides_externalAccount (htype : typeOf j = .string externalAccountType) :
    Procedure.Decides (∃ ms, j = .object ms ∧ IsExternalAccount ms) (IsLoaded j setup)
      (externalAccount j setup) := by
  refine ((Procedure.Decides.bind (decides_check externalAccountShape "external account" j)
    (B := (sourceSection ((get? (j.members?.getD []) "credential_source").getD .null)).MakesSense ∧
      True ∧ NamesOne (j.members?.getD []) "service_account_impersonation_url") ?_)).congr ?_
  · rintro _ ⟨rfl, hfits⟩
    refine Procedure.Decides.bind (decides_externalSettings _) ?_
    rintro settings ⟨haudience, htype', hurl, himpersonation⟩
    obtain ⟨hasAudience, hasType, hasUrl⟩ := filled_of_fits hfits
    refine Procedure.Decides.bind (ExternalAccount.decides_ofSettings
      (haudience ▸ isSome_filled?_text.mpr hasAudience)
      (htype' ▸ isSome_filled?_text.mpr hasType) (hurl ▸ isSome_filled?_text.mpr hasUrl)) ?_
    intro account haccount
    have hdecides := ExternalAccount.decides_createCredential account
      { setup with quotaProject := Json.Members.text (j.members?.getD []) "quota_project_id" }
    rw [haccount, himpersonation] at hdecides
    refine hdecides.mono fun made ⟨⟨a, ha⟩, hsetup⟩ => ⟨?_, hsetup⟩
    rw [ha, htype]
    rfl
  · rw [true_and]
    exact fits_externalAccountShape

theorem typeOf_of_has {ms : Json.Members} {type : String} (h : Has (· = .string type) ms "type") :
    typeOf (.object ms) = .string type := by
  obtain ⟨_, hget, rfl⟩ := h
  exact congrArg (fun o : Option Json => o.getD .null) hget

/-- Which part of the grammar a document has to keep to is told by its type. -/
theorem isCredential_iff : IsCredential keys j ↔
    (typeOf j = .string serviceAccountType ∧ ∃ ms, j = .object ms ∧ IsServiceAccount keys ms) ∨
    (typeOf j = .string userType ∧ ∃ ms, j = .object ms ∧ IsUser ms) ∨
    (typeOf j = .string externalAccountType ∧ ∃ ms, j = .object ms ∧ IsExternalAccount ms) := by
  constructor
  · rintro ⟨ms, rfl, h | h | h⟩
    · exact .inl ⟨typeOf_of_has h.type, ms, rfl, h⟩
    · exact .inr (.inl ⟨typeOf_of_has h.type, ms, rfl, h⟩)
    · exact .inr (.inr ⟨typeOf_of_has h.type, ms, rfl, h⟩)
  · rintro (⟨-, ms, rfl, h⟩ | ⟨-, ms, rfl, h⟩ | ⟨-, ms, rfl, h⟩)
    · exact ⟨ms, rfl, .inl h⟩
    · exact ⟨ms, rfl, .inr (.inl h)⟩
    · exact ⟨ms, rfl, .inr (.inr h)⟩

/-- Whether credentials come of a document is decided by the grammar. -/
theorem decides_credential (keys : Crypto.KeyReader) (j : Json) (setup : Credential.Setup) :
    Procedure.Decides (IsCredential keys j) (IsLoaded j setup) (credential keys j setup) := by
  by_cases hservice : typeOf j = .string serviceAccountType
  · rw [credential_of_serviceAccount hservice]
    refine (Procedure.Decides.bind (decides_serviceAccount hservice) fun _ hc =>
      Procedure.Decides.create hc).congr ?_
    simp [isCredential_iff, hservice, serviceAccountType, userType, externalAccountType]
  by_cases huser : typeOf j = .string userType
  · rw [credential_of_user huser]
    refine (Procedure.Decides.bind (decides_user huser) fun _ hc =>
      Procedure.Decides.create hc).congr ?_
    simp [isCredential_iff, huser, serviceAccountType, userType, externalAccountType]
  by_cases hexternal : typeOf j = .string externalAccountType
  · rw [credential_of_externalAccount hexternal]
    refine (decides_externalAccount hexternal).congr ?_
    simp [isCredential_iff, hexternal, serviceAccountType, userType, externalAccountType]
  · rw [credential_of_other hservice huser hexternal]
    refine (Procedure.Decides.raise rfl).congr ?_
    simp [isCredential_iff, hservice, huser, hexternal]

/-- Whatever keys the platform reads, a document is accepted exactly if it is in the grammar, and
any other one is refused as a fault of the configuration. Neither takes more than making the
credentials, and members that the grammar does not know change nothing. -/
theorem credential_judged_by_grammar (keys : Crypto.KeyReader) (j : Json)
    (setup : Credential.Setup) :
    ((credential keys j setup).Builds (IsLoaded j setup) ↔ IsCredential keys j) ∧
    ((∃ e, credential keys j setup = .done (.error e) ∧ e.kind? = some .config) ↔
      ¬ IsCredential keys j) ∧
    ((credential keys j setup).Asks fun q => ∃ c, q = .create c) ∧
    ∀ j', known j' = known j → credential keys j' setup = credential keys j setup := by
  have hdecides := decides_credential keys j setup
  refine ⟨⟨fun hbuilds => ?_, hdecides.accepts⟩, ⟨?_, hdecides.refuses⟩, ?_, fun j' hknown => ?_⟩
  · by_contra hnot
    obtain ⟨e, he, -⟩ := hdecides.refuses hnot
    exact hbuilds.ne_error e he
  · rintro ⟨e, he, -⟩ hin
    exact (hdecides.accepts hin).ne_error e he
  · by_cases hin : IsCredential keys j
    · exact (hdecides.accepts hin).asks
    · obtain ⟨e, he, -⟩ := hdecides.refuses hin
      rw [he]
      trivial
  · rw [← credential_known keys j', hknown, credential_known]

/-- A description of an identity whose token is in a file, with members that only others know. -/
def described (extra : Json.Members) : Json :=
  .object ([("type", .string externalAccountType), ("audience", .string "pool"),
    ("subject_token_type", .string "jwt"), ("token_url", .string "https://sts.test/"),
    ("credential_source", .object ([("file", .string "/token"),
      ("format", .object (extra ++ [("type", .string "text")]))] ++ extra))] ++ extra)

theorem isCredential_described : IsCredential keys (described []) := by
  refine ⟨_, rfl, .inr (.inr ?_)⟩
  exact
    { type := ⟨_, rfl, rfl⟩
      audience := ⟨_, rfl, _, rfl, by decide⟩
      subjectTokenType := ⟨_, rfl, _, rfl, by decide⟩
      tokenUrl := ⟨_, rfl, _, rfl, by decide⟩
      source := ⟨_, rfl, _, rfl,
        { file := fun j hj => by cases hj; exact .inr ⟨_, rfl, by decide⟩
          url := fun j hj => by cases hj
          either := .inl ⟨_, rfl, _, rfl, by decide⟩
          headers := fun j hj => by cases hj
          environmentId := fun j hj => by cases hj
          format := fun j hj => by
            cases hj
            exact .inr ⟨_, rfl,
              { type := ⟨_, rfl, .inl rfl⟩
                fieldName := fun j hj => by cases hj
                needed := fun ⟨_, hj, hjson⟩ => by
                  cases hj
                  exact absurd (Json.string.inj hjson) (by decide) }⟩ }⟩
      impersonationUrl := fun j hj => by cases hj
      tokenInfoUrl := fun j hj => by cases hj
      clientId := fun j hj => by cases hj
      clientSecret := fun j hj => by cases hj
      quotaProjectId := fun j hj => by cases hj }

theorem credential_judged_by_grammar_extra :
    (credential Crypto.PrivateKey.ofText? (described []) {}).Builds (IsLoaded (described []) {}) ∧
      known (described [("universe_domain", .number 1)]) = known (described []) ∧
      credential Crypto.PrivateKey.ofText? (described [("universe_domain", .number 1)]) {}
        = credential Crypto.PrivateKey.ofText? (described []) {} := by
  have hjudged := credential_judged_by_grammar Crypto.PrivateKey.ofText? (described []) {}
  have hknown : known (described [("universe_domain", .number 1)]) = known (described []) := rfl
  exact ⟨hjudged.1.mpr isCredential_described, hknown, hjudged.2.2.2 _ hknown⟩

end CredentialFile
end Bearer
