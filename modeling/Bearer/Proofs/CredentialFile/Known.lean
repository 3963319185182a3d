import Bearer.CredentialFile.Load
import Bearer.Proofs.CredentialFile.Shape

namespace Bearer.CredentialFile

open Shape (knownMembers)

/-- The shape that a document of its type has to have. -/
def shapeOf? (j : Json) : Option Shape :=
  match typeOf j with
  | .string type =>
    if type = serviceAccountType then some serviceAccountShape
    else if type = userType then some userShape
    else if type = externalAccountType then some externalAccountShape
    else none
  | _ => none

/-- The document without the members that its shape does not know. Of a document without a shape
nothing but the type is known. -/
def known (j : Json) : Json :=
  match shapeOf? j with
  | some shape => shape.known j
  | none => .object [("type", typeOf j)]

variable {members : List (String × Shape)} {required : List String} {nullable : Bool}

theorem sound_serviceAccountShape : serviceAccountShape.Sound := by
  simp [serviceAccountShape, Shape.Sound, Shape.AllSound, typeShape, Shape.optional, Shape.filled]

theorem sound_userShape : userShape.Sound := by
  simp [userShape, Shape.Sound, Shape.AllSound, typeShape, Shape.optional, Shape.filled]

theorem sound_externalAccountShape : externalAccountShape.Sound := by
  simp [externalAccountShape, sourceShape, formatShape, Shape.Sound, Shape.AllSound, typeShape,
    Shape.optional, Shape.filled, Shape.plain]

/-- What a document has under a name that its shape knows. -/
theorem get?_known {s : String × Shape} {name : String} (j : Json)
    (hs : members.find? (fun s => s.1 == name) = some s) :
    Json.Members.get? (((Shape.object members required none nullable).known j).members?.getD [])
        name
      = (Json.Members.get? (j.members?.getD []) name).map s.2.known := by
  cases j with
  | object ms => simp [Shape.known, Json.members?, Shape.get?_knownMembers, hs]
  | _ => rfl

/-- Whether all that the shape tells of a document is known: it is no object with members of
its own. -/
def isWhole : Shape → Bool
  | .object _ _ none _ => false
  | _ => true

theorem known_of_isWhole {shape : Shape} (h : isWhole shape = true) (j : Json) :
    shape.known j = j := by
  match shape with
  | .text .. => rw [Shape.known]
  | .object _ _ (some _) _ => rw [Shape.known]; simp

variable {name : String} {j : Json}

theorem get?_known_whole
    (h : (members.find? fun s => s.1 == name).map (fun s => isWhole s.2) = some true) :
    Json.Members.get? (((Shape.object members required none nullable).known j).members?.getD [])
        name
      = Json.Members.get? (j.members?.getD []) name := by
  obtain ⟨s, hs, hwhole⟩ := Option.map_eq_some_iff.mp h
  rw [get?_known j hs, funext (known_of_isWhole hwhole), Option.map_id']

theorem setting_known {α : Type} {read : Json → Option α}
    (h : (members.find? fun s => s.1 == name).map (fun s => isWhole s.2) = some true) :
    Json.Members.setting
        (((Shape.object members required none nullable).known j).members?.getD []) name read
      = Json.Members.setting (j.members?.getD []) name read := by
  rw [Json.Members.setting, get?_known_whole h, Json.Members.setting]

theorem text_known
    (h : (members.find? fun s => s.1 == name).map (fun s => isWhole s.2) = some true) :
    Json.Members.text
        (((Shape.object members required none nullable).known j).members?.getD []) name
      = Json.Members.text (j.members?.getD []) name := setting_known h

theorem textD_known
    (h : (members.find? fun s => s.1 == name).map (fun s => isWhole s.2) = some true) :
    Json.Members.textD
        (((Shape.object members required none nullable).known j).members?.getD []) name
      = Json.Members.textD (j.members?.getD []) name := by
  rw [Json.Members.textD, get?_known_whole h, Json.Members.textD]

theorem serviceAccount_known (keys : Crypto.KeyReader) (j : Json) (setup : Credential.Setup) :
    serviceAccount keys (serviceAccountShape.known j) setup = serviceAccount keys j setup := by
  unfold serviceAccount check
  rw [Shape.departure?_known _ sound_serviceAccountShape]
  cases serviceAccountShape.departure? [] j with
  | some d => rfl
  | none =>
    simp (disch := decide) only [bind, Except.bind, serviceAccountShape, text_known, textD_known]

theorem user_known (j : Json) (setup : Credential.Setup) :
    user (userShape.known j) setup = user j setup := by
  unfold user check
  rw [Shape.departure?_known _ sound_userShape]
  cases userShape.departure? [] j with
  | some d => rfl
  | none => simp (disch := decide) only [bind, Except.bind, userShape, text_known, textD_known]

theorem format_known (format : Option Json)
    (h : name = "type" ∨ name = "subject_token_field_name") :
    ((format.map formatShape.known).bind Json.members?).bind (fun f => (f.text name).toOption)
      = (format.bind Json.members?).bind fun f => (f.text name).toOption := by
  cases format with
  | none => rfl
  | some j =>
    cases j with
    | object ms =>
      have htext : Json.Members.text ((formatShape.known (.object ms)).members?.getD []) name
          = Json.Members.text ms name := by
        rcases h with rfl | rfl <;> exact text_known (by decide)
      exact congrArg Given.toOption htext
    | _ => rfl

theorem sourceSection_known (j : Json) : sourceSection (sourceShape.known j) = sourceSection j := by
  have hformat : Json.Members.get? ((sourceShape.known j).members?.getD []) "format"
      = (Json.Members.get? (j.members?.getD []) "format").map formatShape.known :=
    get?_known (s := ("format", formatShape)) j rfl
  simp only [sourceSection, hformat, format_known _ (.inl rfl), format_known _ (.inr rfl)]
  simp (disch := decide) only [sourceShape, text_known, setting_known]

theorem externalSettings_known (j : Json) :
    externalSettings ((externalAccountShape.known j).members?.getD [])
      = externalSettings (j.members?.getD []) := by
  have hsource : Json.Members.get? ((externalAccountShape.known j).members?.getD [])
        "credential_source"
      = (Json.Members.get? (j.members?.getD []) "credential_source").map sourceShape.known :=
    get?_known (s := ("credential_source", sourceShape)) j rfl
  have hsection : ∀ source : Option Json,
      sourceSection ((source.map sourceShape.known).getD .null)
        = sourceSection (source.getD .null) := by
    rintro (- | source)
    · rfl
    · exact sourceSection_known source
  simp only [externalSettings, hsource, hsection]
  simp (disch := decide) only [externalAccountShape, text_known]

theorem externalAccount_known (j : Json) (setup : Credential.Setup) :
    externalAccount (externalAccountShape.known j) setup = externalAccount j setup := by
  have hquota : Json.Members.text ((externalAccountShape.known j).members?.getD [])
        "quota_project_id"
      = Json.Members.text (j.members?.getD []) "quota_project_id" := text_known (by decide)
  unfold externalAccount check
  rw [Shape.departure?_known _ sound_externalAccountShape]
  cases externalAccountShape.departure? [] j with
  | some d => rfl
  | none =>
    simp only [bind, Procedure.bind, liftM, monadLift, MonadLift.monadLift, Procedure.ofResult,
      externalSettings_known, hquota]

theorem typeOf_known
    (h : (members.find? fun s => s.1 == "type").map (fun s => isWhole s.2) = some true) :
    typeOf ((Shape.object members required none nullable).known j) = typeOf j := by
  have hget : ∀ j : Json, j.get? "type" = Json.Members.get? (j.members?.getD []) "type" :=
    fun j => by cases j <;> rfl
  rw [typeOf, hget, get?_known_whole h, ← hget, typeOf]

theorem shapeOf?_eq_some {shape : Shape} (h : shapeOf? j = some shape) :
    (typeOf j = .string serviceAccountType ∧ shape = serviceAccountShape) ∨
      (typeOf j = .string userType ∧ shape = userShape) ∨
      (typeOf j = .string externalAccountType ∧ shape = externalAccountShape) := by
  unfold shapeOf? at h
  split at h
  · next type htype =>
    rw [htype]
    split at h
    · next hservice => exact .inl ⟨by rw [hservice], (Option.some.inj h).symm⟩
    · split at h
      · next huser => exact .inr (.inl ⟨by rw [huser], (Option.some.inj h).symm⟩)
      · split at h
        · next hexternal => exact .inr (.inr ⟨by rw [hexternal], (Option.some.inj h).symm⟩)
        · cases h
  · cases h

theorem shapeOf?_eq_none (h : shapeOf? j = none) :
    typeOf j ≠ .string serviceAccountType ∧ typeOf j ≠ .string userType ∧
      typeOf j ≠ .string externalAccountType := by
  refine ⟨fun htype => ?_, fun htype => ?_, fun htype => ?_⟩ <;>
    simp [shapeOf?, htype, serviceAccountType, userType, externalAccountType] at h

section
variable {keys : Crypto.KeyReader} {setup : Credential.Setup}

theorem credential_of_serviceAccount (h : typeOf j = .string serviceAccountType) :
    credential keys j setup = (do create (← serviceAccount keys j setup)) := by
  simp only [credential, h, reduceIte]

theorem credential_of_user (h : typeOf j = .string userType) :
    credential keys j setup = (do create (← user j setup)) := by
  simp only [credential, h, reduceIte, show userType ≠ serviceAccountType by decide]

theorem credential_of_externalAccount (h : typeOf j = .string externalAccountType) :
    credential keys j setup = externalAccount j setup := by
  simp only [credential, h, reduceIte, show externalAccountType ≠ serviceAccountType by decide,
    show externalAccountType ≠ userType by decide]

theorem credential_of_other (hservice : typeOf j ≠ .string serviceAccountType)
    (huser : typeOf j ≠ .string userType) (hexternal : typeOf j ≠ .string externalAccountType) :
    credential keys j setup = .raise (.unsupportedType (typeOf j).render) := by
  unfold credential
  cases htype : typeOf j with
  | string type =>
    rw [htype] at hservice huser hexternal
    simp only [ne_eq, Json.string.injEq] at hservice huser hexternal
    simp only [if_neg hservice, if_neg huser, if_neg hexternal]
  | _ => rfl

end

/-- What the shape of a document does not know plays no part. -/
theorem credential_known (keys : Crypto.KeyReader) (j : Json) (setup : Credential.Setup) :
    credential keys (known j) setup = credential keys j setup := by
  unfold known
  cases hshape : shapeOf? j with
  | none =>
    obtain ⟨hservice, huser, hexternal⟩ := shapeOf?_eq_none hshape
    have hknown : typeOf (.object [("type", typeOf j)]) = typeOf j := rfl
    rw [credential_of_other hservice huser hexternal]
    rw [← hknown] at hservice huser hexternal
    rw [credential_of_other hservice huser hexternal, hknown]
  | some shape =>
    obtain ⟨htype, rfl⟩ | ⟨htype, rfl⟩ | ⟨htype, rfl⟩ := shapeOf?_eq_some hshape
    · have hknown : typeOf (serviceAccountShape.known j) = typeOf j := typeOf_known (by decide)
      rw [credential_of_serviceAccount (hknown.trans htype), credential_of_serviceAccount htype,
        serviceAccount_known]
    · have hknown : typeOf (userShape.known j) = typeOf j := typeOf_known (by decide)
      rw [credential_of_user (hknown.trans htype), credential_of_user htype, user_known]
    · have hknown : typeOf (externalAccountShape.known j) = typeOf j := typeOf_known (by decide)
      rw [credential_of_externalAccount (hknown.trans htype), credential_of_externalAccount htype,
        externalAccount_known]

end Bearer.CredentialFile
