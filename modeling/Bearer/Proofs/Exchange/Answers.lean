import Bearer.Proofs.Credential.Acceptance
import Bearer.Proofs.Exchange.Client
import Bearer.Proofs.Exchange.Scopes

namespace Bearer

/-- What a procedure comes to that asks for nothing but the time, which stands still. -/
def Procedure.outcomeAt? {α : Type} (now : Double) : Procedure α → Option (Result α)
  | .done outcome => some outcome
  | .ask .now next => (next now).outcomeAt? now
  | _ => none

namespace Exchange

open Http

/-- The object has all that an answer to an exchange must have, and nothing of another type
among what it may have. A life may be left out but not be null, the others may be both. -/
structure Acceptable (data : Json.Members) : Prop where
  value : ∃ s, Json.Members.get? data "access_token" = some (.string s)
  issuedTokenType : ∃ s, Json.Members.get? data "issued_token_type" = some (.string s)
  tokenType : ∃ s, Json.Members.get? data "token_type" = some (.string s)
  life : Json.Members.get? data "expires_in" = none ∨
    ∃ j n, Json.Members.get? data "expires_in" = some j ∧ Whole j n
  refreshToken : ∃ text, Optional data "refresh_token" text
  scope : ∃ text, Optional data "scope" text

/-- How long the issued token lives, counted from a reading of the clock. -/
inductive Lives (now : Double) (data : Json.Members) (value : String) :
    Option Double → Token → Prop
  | endless (h : Json.Members.get? data "expires_in" = none) :
      Lives now data value none ⟨value, .never⟩
  | lasting {j : Json} {n : Int} (h : Json.Members.get? data "expires_in" = some j)
      (hn : Whole j n) : Lives now data value (some (.finite n)) (.lasting value now (.finite n))

/-- The scopes that are told: none, or the words of a text. -/
inductive Tells (data : Json.Members) : Option (List String) → Prop
  | nothing (h : Optional data "scope" none) : Tells data none
  | words {scope : String} {ws : List String} (h : Optional data "scope" (some scope))
      (hruns : Runs scope.toList (ws.map String.toList)) : Tells data (some ws)

/-- What an object issues at a reading of the clock. -/
structure Issued (now : Double) (data : Json.Members) (a : Answer) : Prop where
  token : ∃ value, Json.Members.get? data "access_token" = some (.string value) ∧
    Lives now data value a.expiresIn a.token
  issuedTokenType : Json.Members.get? data "issued_token_type" = some (.string a.issuedTokenType)
  tokenType : Json.Members.get? data "token_type" = some (.string a.tokenType)
  refreshToken : Optional data "refresh_token" a.refreshToken
  scopes : Tells data a.scopes

variable {now : Double} {data : Json.Members} {a : Answer}

theorem Issued.acceptable (h : Issued now data a) : Acceptable data := by
  obtain ⟨token, issued, type, life, refresh, scopes⟩ := a
  obtain ⟨⟨value, hvalue, hlives⟩, hissued, htype, hrefresh, htells⟩ := h
  refine ⟨⟨value, hvalue⟩, ⟨_, hissued⟩, ⟨_, htype⟩, ?_, ⟨_, hrefresh⟩, ?_⟩
  · cases hlives with
    | endless hnone => exact .inl hnone
    | lasting hj hn => exact .inr ⟨_, _, hj, hn⟩
  · cases htells with
    | nothing hnone => exact ⟨_, hnone⟩
    | words hsome _ => exact ⟨_, hsome⟩

theorem Acceptable.issued (h : Acceptable data) (now : Double) : ∃ a, Issued now data a := by
  obtain ⟨⟨value, hvalue⟩, ⟨issued, hissued⟩, ⟨type, htype⟩, hlife, ⟨refresh, hrefresh⟩,
    ⟨scope, hscope⟩⟩ := h
  have hlives : ∃ life token, Lives now data value life token := by
    rcases hlife with hnone | ⟨j, n, hj, hn⟩
    · exact ⟨_, _, .endless hnone⟩
    · exact ⟨_, _, .lasting hj hn⟩
  have htells : ∃ scopes, Tells data scopes := by
    cases scope with
    | none => exact ⟨_, .nothing hscope⟩
    | some text => exact ⟨_, .words hscope (words_eq_iff.mp rfl)⟩
  obtain ⟨life, token, hlives⟩ := hlives
  obtain ⟨scopes, htells⟩ := htells
  exact ⟨⟨token, issued, type, life, refresh, scopes⟩, ⟨value, hvalue, hlives⟩, hissued, htype,
    hrefresh, htells⟩

/-- The token has no end exactly if no life is told. -/
theorem Issued.endless_iff (h : Issued now data a) :
    a.token.expiry = .never ↔ Json.Members.get? data "expires_in" = none := by
  obtain ⟨token, issued, type, life, refresh, scopes⟩ := a
  obtain ⟨value, -, hlives⟩ := h.token
  cases hlives with
  | endless hnone => exact iff_of_true rfl hnone
  | lasting hj _ =>
    refine iff_of_false (fun hnever => ?_) (by simp [hj])
    simp only [Expiry.ofNumber] at hnever
    split at hnever
    · split at hnever <;> cases hnever
    · cases hnever

/-- No scopes are told exactly if the field is absent or null. -/
theorem Issued.scopes_none_iff (h : Issued now data a) :
    a.scopes = none ↔ Optional data "scope" none := by
  obtain ⟨token, issued, type, life, refresh, scopes⟩ := a
  cases h.scopes with
  | nothing hnone => exact iff_of_true rfl hnone
  | words hsome _ =>
    refine iff_of_false nofun fun hnone => ?_
    cases hsome with
    | text hs => rcases hnone with hn | hn <;> simp [hs] at hn

theorem expiresIn?_eq_ok {life : Option Double} :
    expiresIn? data = .ok life ↔
      (Json.Members.get? data "expires_in" = none ∧ life = none) ∨
      ∃ j n, Json.Members.get? data "expires_in" = some j ∧ Whole j n ∧
        life = some (.finite n) := by
  unfold expiresIn?
  split
  · next hnone => simp [hnone, eq_comm]
  · next j hj =>
    cases hlife : requireInteger data "expires_in" parseContext with
    | error e =>
      refine iff_of_false nofun ?_
      rintro (⟨hnone, -⟩ | ⟨j', n, hj', hn, -⟩)
      · simp [hj] at hnone
      · rw [requireInteger_eq_ok.mpr ⟨j', n, hj', hn, rfl⟩] at hlife
        cases hlife
    | ok x =>
      obtain ⟨j', n, hj', hn, rfl⟩ := requireInteger_eq_ok.mp hlife
      constructor
      · rintro ⟨rfl⟩
        exact .inr ⟨j', n, hj', hn, rfl⟩
      · rintro (⟨hnone, -⟩ | ⟨j'', n', hj'', hn', rfl⟩)
        · simp [hj] at hnone
        · have hsame := (requireInteger_eq_ok.mpr ⟨j'', n', hj'', hn', rfl⟩).symm.trans hlife
          exact congrArg (Except.ok ∘ some) (Except.ok.inj hsame).symm

theorem expiresIn?_error {e : Thrown} (h : expiresIn? data = .error e) : Malformed e := by
  unfold expiresIn? at h
  split at h
  · cases h
  · cases hlife : requireInteger data "expires_in" parseContext with
    | error e' =>
      rw [hlife] at h
      cases h
      exact requireInteger_error hlife
    | ok x =>
      rw [hlife] at h
      cases h

/-- An object is accepted for what it issues. -/
theorem answerOf_eq_ok : answerOf data now = .ok a ↔ Issued now data a := by
  constructor
  · intro h
    obtain ⟨life, hlife, h⟩ := Result.bind_eq_ok h
    obtain ⟨scope, hscope, h⟩ := Result.bind_eq_ok h
    obtain ⟨value, hvalue, h⟩ := Result.bind_eq_ok h
    obtain ⟨issued, hissued, h⟩ := Result.bind_eq_ok h
    obtain ⟨type, htype, h⟩ := Result.bind_eq_ok h
    obtain ⟨refresh, hrefresh, h⟩ := Result.bind_eq_ok h
    cases h
    refine ⟨⟨value, requireString_eq_ok.mp hvalue, ?_⟩, requireString_eq_ok.mp hissued,
      requireString_eq_ok.mp htype, (optionalString_eq_ok (by decide)).mp hrefresh, ?_⟩
    · rcases expiresIn?_eq_ok.mp hlife with ⟨hnone, rfl⟩ | ⟨j, n, hj, hn, rfl⟩
      · exact .endless hnone
      · exact .lasting hj hn
    · have htold := (optionalString_eq_ok (by decide)).mp hscope
      cases scope with
      | none => exact .nothing htold
      | some text => exact .words htold (words_eq_iff.mp rfl)
  · rintro ⟨⟨value, hvalue, hlives⟩, hissued, htype, hrefresh, htells⟩
    obtain ⟨token, issued, type, life, refresh, scopes⟩ := a
    have hlife : expiresIn? data = .ok life := by
      cases hlives with
      | endless hnone => exact expiresIn?_eq_ok.mpr (.inl ⟨hnone, rfl⟩)
      | lasting hj hn => exact expiresIn?_eq_ok.mpr (.inr ⟨_, _, hj, hn, rfl⟩)
    obtain ⟨scope, hscope, hwords⟩ : ∃ scope, Optional data "scope" scope ∧
        scope.map words = scopes := by
      cases htells with
      | nothing hnone => exact ⟨none, hnone, rfl⟩
      | words hsome hruns => exact ⟨_, hsome, congrArg some (words_eq_iff.mpr hruns)⟩
    simp only [answerOf, hlife, (optionalString_eq_ok (by decide)).mpr hscope,
      requireString_eq_ok.mpr hvalue, requireString_eq_ok.mpr hissued,
      requireString_eq_ok.mpr htype, (optionalString_eq_ok (by decide)).mpr hrefresh, bind,
      Except.bind, pure, Except.pure, hwords]
    cases hlives <;> rfl

theorem answerOf_error {e : Thrown} (h : answerOf data now = .error e) : Malformed e := by
  rcases Result.bind_eq_error h with h | ⟨life, -, h⟩
  · exact expiresIn?_error h
  rcases Result.bind_eq_error h with h | ⟨scope, -, h⟩
  · exact optionalString_error h
  rcases Result.bind_eq_error h with h | ⟨value, -, h⟩
  · exact requireString_error h
  rcases Result.bind_eq_error h with h | ⟨issued, -, h⟩
  · exact requireString_error h
  rcases Result.bind_eq_error h with h | ⟨type, -, h⟩
  · exact requireString_error h
  rcases Result.bind_eq_error h with h | ⟨refresh, -, h⟩
  · exact optionalString_error h
  cases h

theorem perform_eq (r : Request) : r.perform = .ask (.send r.http) (Procedure.receiving
    fun response => do
      let data ← response.expectObject refusedContext parseContext
      answerOf data (← Bearer.now)) := rfl

/-- The clock is read at most once. -/
theorem outcomeAt?_answerOf (object : Result Json.Members) (now : Double) :
    (do answerOf (← object) (← Bearer.now) : Procedure Answer).outcomeAt? now =
      some (object >>= fun data => answerOf data now) := by
  cases object with
  | error e => rfl
  | ok data => rfl

/-- What an exchange comes to is what the answer to its request is judged to be. -/
theorem judged_perform (response : Response) {body : String} (hbody : response.body = .ok body)
    (now : Double) : ∃ outcome,
      (Procedure.receiving (fun response => do
        let data ← response.expectObject refusedContext parseContext
        answerOf data (← Bearer.now)) (.ok response)).outcomeAt? now = some outcome ∧
      Judged response.status body true (Issued now) outcome :=
  ⟨_, outcomeAt?_answerOf (response.expectObject refusedContext parseContext) now,
    judged_expectObject hbody _ _ (fun _ _ => answerOf_eq_ok) fun _ _ => answerOf_error⟩

/-- Which answers to an exchange are accepted. An exchange sends its request, and whatever
answer comes whose body can be read, it ends with what that answer is judged to be: it issues
a token exactly if its status is that of a success and its body an object that has all that it
must have. A token without a told life has no end; a life in whole seconds is added exactly to
a reading of the clock in whole milliseconds, and ends at no instant that can be told if it
leads beyond the calendar. Scopes are told unless their field is absent or null, and scopes
that were joined by spaces come apart again. -/
theorem exchange_answers_judged :
    (∀ r : Request, ∃ next, r.perform = .ask (.send r.http) next ∧
      ∀ status headers body now, ∃ outcome,
        (next (.ok { status, headers, body := .ok body })).outcomeAt? now = some outcome ∧
        Judged status body true (Issued now) outcome ∧
        ((∃ a, outcome = .ok a) ↔ status = statusOk ∧
          ∃ data, Json.parse body = some (.object data) ∧ Acceptable data)) ∧
    (∀ now data a, Issued now data a →
      (a.token.expiry = .never ↔ Json.Members.get? data "expires_in" = none) ∧
      (a.scopes = none ↔ Optional data "scope" none)) ∧
    (∀ (value : String) (t n : Int), Time.isValid t = true →
      Token.lasting value (Double.ofInt t) (.finite n) =
        ⟨value, if Time.isValid (t + 1000 * n) then .at (t + 1000 * n) else .invalid⟩) ∧
    ∀ scopes : List String, (∀ w ∈ scopes, w ≠ "" ∧ ' ' ∉ w.toList) →
      words (" ".intercalate scopes) = scopes := by
  refine ⟨fun r => ⟨_, perform_eq r, fun status headers body now => ?_⟩,
    fun now data a h => ⟨h.endless_iff, h.scopes_none_iff⟩,
    fun value t n ht => congrArg (Token.mk value) (Expiry.ofNumber_lasting ht n),
    fun scopes => words_intercalate⟩
  obtain ⟨outcome, houtcome, hjudged⟩ :=
    judged_perform { status, headers, body := .ok body } rfl now
  refine ⟨outcome, houtcome, hjudged, ?_⟩
  constructor
  · rintro ⟨a, ha⟩
    obtain ⟨hstatus, data, hparse, hissued⟩ := (hjudged.accepted a).mp ha
    exact ⟨hstatus, data, hparse, hissued.acceptable⟩
  · rintro ⟨hstatus, data, hparse, hacceptable⟩
    obtain ⟨a, hissued⟩ := hacceptable.issued now
    exact ⟨a, (hjudged.accepted a).mpr ⟨hstatus, data, hparse, hissued⟩⟩

/-- An answer that tells no life, and two scopes with a blank before, between and behind. -/
def telling : Json.Members :=
  [("access_token", .string "at"), ("issued_token_type", .string "type"),
   ("token_type", .string "Bearer"), ("scope", .string " a  b ")]

theorem parse_telling : Json.parse (Json.object telling).render = some (.object telling) := by
  have hnames : ["access_token", "issued_token_type", "token_type", "scope"].Nodup := by decide
  have hindex : ∀ name ∈ ["access_token", "issued_token_type", "token_type", "scope"],
      Json.index? name = none := by decide
  have htidy : (Json.object telling).Tidy :=
    ⟨hnames, fun m hm => hindex m.1 (List.mem_map_of_mem hm), trivial, trivial, trivial, trivial,
      trivial⟩
  rw [Json.parse_render htidy]
  rfl

/-- An exchange is answered with an endless token and two scopes; a life of a minute ends after
a minute; and two scopes that were joined come apart. -/
theorem exchange_answers_judged_telling :
    (∃ next, (Request.bare ⟨"app", .missing⟩).perform =
        .ask (.send (Request.bare ⟨"app", .missing⟩).http) next ∧
      (next (.ok
          { status := 200, headers := [], body := .ok (Json.object telling).render })).outcomeAt?
        (Double.ofInt 0)
          = some (.ok ⟨⟨"at", .never⟩, "type", "Bearer", none, none, some ["a", "b"]⟩)) ∧
    Token.lasting "at" (Double.ofInt 0) (.finite (60 : Int)) = ⟨"at", .at 60000⟩ ∧
    words (" ".intercalate ["a", "b"]) = ["a", "b"] := by
  obtain ⟨hperform, -, hlife, hwords⟩ := exchange_answers_judged
  obtain ⟨next, hsends, hanswered⟩ := hperform (.bare ⟨"app", .missing⟩)
  obtain ⟨outcome, houtcome, hjudged, -⟩ :=
    hanswered 200 [] (Json.object telling).render (Double.ofInt 0)
  have hissued : Issued (Double.ofInt 0) telling
      ⟨⟨"at", .never⟩, "type", "Bearer", none, none, some ["a", "b"]⟩ :=
    ⟨⟨"at", rfl, .endless rfl⟩, rfl, rfl, .absent rfl, .words (.text rfl) (runs_parts _)⟩
  rw [(hjudged.accepted _).mpr ⟨rfl, telling, parse_telling, hissued⟩] at houtcome
  exact ⟨⟨next, hsends, houtcome⟩, hlife "at" 0 60 (by decide), hwords ["a", "b"] (by decide)⟩

end Exchange
end Bearer
