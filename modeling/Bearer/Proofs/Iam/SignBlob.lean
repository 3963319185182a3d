import Bearer.Iam.SignBlob
import Bearer.Proofs.Http.Answers
import Bearer.Proofs.Http.Forms
import Bearer.Proofs.Text.Spelling

namespace Bearer.Iam

open Text.Base64 (Encodes Padded standardAlphabet safeAlphabet)

variable {account : String} {metadata : Metadata} {bytes signature : List UInt8}

/-- A request to sign tells the bytes in padded letters of the standard alphabet. -/
theorem document?_signRequest : (signRequest account metadata bytes).document? =
    some (.object [("payload", .string (Text.Base64.encodeString bytes))]) := by
  have hname : Json.index? "payload" = none := by decide
  have htidy : (Json.object [("payload", .string (Text.Base64.encodeString bytes))]).Tidy :=
    ⟨List.nodup_singleton _, List.forall_mem_singleton.mpr hname, trivial, trivial⟩
  exact Http.document?_postJson _ htidy _

/-- A success whose body tells a signature is answered with what the letters encode. -/
theorem signatureIn_of_encodes {response : Http.Response} {body signed : String}
    {data : Json.Members} (hstatus : response.status = Http.statusOk)
    (hbody : response.body = .ok body) (hdata : Json.parse body = some (.object data))
    (hsigned : Json.Members.get? data "signedBlob" = some (.string signed))
    (h : Encodes signed.toList signature) : signatureIn response = .ok signature := by
  have hobject : response.object parseContext = .ok data := by
    rw [Http.Response.object, hbody]
    exact Http.parseObject_eq_ok.mpr hdata
  have hrefused : ¬ (Http.statusBadRequest ≤ response.status ∧
      response.status < Http.statusServerError) := by
    rw [hstatus]
    decide
  rw [signatureIn, if_neg hrefused, if_neg (not_not_intro hstatus), hobject]
  show (Http.requireString data "signedBlob" parseContext >>= _) = _
  rw [Http.requireString_eq_ok.mpr hsigned]
  exact congrArg Except.ok (Text.Base64.decode_of_encodes h)

/-- To have bytes signed takes one request, whose payload spells exactly these bytes in the standard
alphabet and with its padding, so that they are read back from it. And if the answer is a success
whose signature is encoded in letters of either alphabet or of both, with padding or without, and
with whatever other signs strewn in, the outcome is exactly the bytes that are so encoded. -/
theorem blob_signed_exactly (account : String) (metadata : Metadata) (bytes : List UInt8) :
    ∃ r next, signBlob account metadata bytes = .ask (.send r) next ∧
      (∃ data payload, r.document? = some (.object data) ∧
        Json.Members.get? data "payload" = some (.string payload) ∧
        Padded [standardAlphabet] payload.toList bytes ∧
        Text.Base64.decode payload.toList = bytes) ∧
      ∀ headers body data signed signature, Json.parse body = some (.object data) →
        Json.Members.get? data "signedBlob" = some (.string signed) →
        Encodes signed.toList signature →
        next (.ok { status := 200, headers, body := .ok body }) = .done (.ok signature) := by
  refine ⟨signRequest account metadata bytes, _, rfl,
    ⟨_, _, document?_signRequest, rfl, ?_, ?_⟩, ?_⟩
  · rw [Text.Base64.encodeString, String.toList_ofList]
    exact Text.Base64.padded_encode bytes
  · rw [Text.Base64.encodeString, String.toList_ofList, Text.Base64.decode_encode]
  · intro headers body data signed signature hdata hsigned h
    exact congrArg Procedure.done (signatureIn_of_encodes rfl rfl hdata hsigned h)

/-- Letters of both alphabets, with blanks between them and before the padding. -/
def mixedLetters : String := "+\n_ 8 ="

theorem encodes_mixedLetters : Encodes mixedLetters.toList [251, 255] := by
  have hletters : mixedLetters.toList.filter (!Text.Base64.IsFiller ·) =
      ['+', '_', '8'] ++ List.replicate 1 '=' := by decide +kernel
  have hvalues : List.Forall₂ (Text.Base64.StandsFor [standardAlphabet, safeAlphabet])
      ['+', '_', '8'] [62, 63, 60] :=
    .cons ⟨standardAlphabet, by simp, by decide +kernel⟩
      (.cons ⟨safeAlphabet, by simp, by decide +kernel⟩
        (.cons ⟨standardAlphabet, by simp, by decide +kernel⟩ .nil))
  refine .inr ⟨['+', '_', '8'], 1, hletters, ⟨_, 2, hvalues, by decide, by decide⟩, by decide, ?_⟩
  rw [hletters]
  rfl

/-- A signature comes back out of an answer that mixes the alphabets. -/
theorem blob_signed_exactly_mixed :
    Encodes mixedLetters.toList [251, 255] ∧
    ∃ r next, signBlob "robot@example" [] [0, 16] = .ask (.send r) next ∧
      next (.ok
          { status := 200, headers := []
            body := .ok (Json.object [("signedBlob", .string mixedLetters)]).render }) =
        .done (.ok [251, 255]) := by
  obtain ⟨r, next, hsends, -, hanswered⟩ := blob_signed_exactly "robot@example" [] [0, 16]
  have hname : Json.index? "signedBlob" = none := by decide
  have htidy : (Json.object [("signedBlob", .string mixedLetters)]).Tidy :=
    ⟨List.nodup_singleton _, List.forall_mem_singleton.mpr hname, trivial, trivial⟩
  exact ⟨encodes_mixedLetters, r, next, hsends,
    hanswered [] _ _ mixedLetters _ (Json.parse_render htidy) rfl encodes_mixedLetters⟩

end Bearer.Iam
