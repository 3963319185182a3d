import Bearer.Proofs.Credential.Acceptance
import Bearer.Proofs.Credential.Minting

namespace Bearer

namespace Thrown

/-- What stands under a name in the entries of an object. -/
def under? (entries : List (String × Thrown)) (name : String) : Option Thrown :=
  (entries.find? fun e => e.1 = name).map Prod.snd

/-- What a value names as its cause, be it an error or an object that is none. -/
def cause? : Thrown → Option Thrown
  | error _ _ cause _ _ => cause
  | object _ entries => under? entries "cause"
  | _ => none

/-- The text of the code that a value carries, be it an error or an object that is none. -/
def codeText? : Thrown → Option String
  | error kind _ _ code _ => (Http.code? kind code).map Json.plainText
  | object _ entries => (under? entries "code").map reason
  | _ => none

/-- The value so many causes behind another. -/
def causeAt? (v : Thrown) : Nat → Option Thrown
  | 0 => some v
  | n + 1 => v.cause?.bind (causeAt? · n)

/-- The value carries the code of a host that is not known. -/
def CarriesHostCode (v : Thrown) : Prop :=
  v.codeText? = some "ENOTFOUND" ∨ v.codeText? = some "EAI_AGAIN"

/-- Some value in the chain of causes carries such a code, and it is an error, as all before
it are. -/
def BlamesUnknownHost (v : Thrown) : Prop :=
  ∃ n e, v.causeAt? n = some e ∧ e.CarriesHostCode ∧
    ∀ m ≤ n, ∃ d, v.causeAt? m = some d ∧ d.isError = true

/-- Nothing is its own cause. -/
theorem cause?_ne_self (v : Thrown) : v.cause? ≠ some v := by
  intro hself
  cases v with
  | error kind message cause code errors =>
    have hsize := congrArg sizeOf (show cause = some _ from hself)
    simp at hsize
    omega
  | object label entries =>
    obtain ⟨entry, hentry, hvalue⟩ := Option.map_eq_some_iff.mp hself
    have hsize := List.sizeOf_lt_of_mem (List.mem_of_find?_eq_some hentry)
    obtain ⟨name, value⟩ := entry
    obtain rfl : value = _ := hvalue
    simp at hsize
    omega
  | _ => cases hself

variable {v : Thrown}

theorem not_blamesUnknownHost_of_not_isError (h : v.isError = false) : ¬ v.BlamesUnknownHost := by
  rintro ⟨n, -, -, -, herrors⟩
  obtain ⟨d, hd, herror⟩ := herrors 0 (Nat.zero_le n)
  obtain rfl : v = d := Option.some.inj hd
  rw [h] at herror
  cases herror

/-- The first element of the chain tells, or the chain behind its cause does. -/
theorem blamesUnknownHost_error {kind : ErrorKind} {message : String} {cause : Option Thrown}
    {code : Option Json} {errors : List Thrown} :
    (error kind message cause code errors).BlamesUnknownHost ↔
      (error kind message cause code errors).CarriesHostCode ∨
        ∃ c, cause = some c ∧ c.BlamesUnknownHost := by
  constructor
  · rintro ⟨n, e, he, hcode, herrors⟩
    cases n with
    | zero =>
      obtain rfl := Option.some.inj he
      exact .inl hcode
    | succ n =>
      obtain ⟨c, rfl, he⟩ := Option.bind_eq_some_iff.mp he
      exact .inr ⟨c, rfl, n, e, he, hcode, fun m hm => herrors (m + 1) (Nat.succ_le_succ hm)⟩
  · rintro (hcode | ⟨c, rfl, n, e, he, hcode, herrors⟩)
    · refine ⟨0, _, rfl, hcode, fun m hm => ?_⟩
      obtain rfl := Nat.le_zero.mp hm
      exact ⟨_, rfl, rfl⟩
    · refine ⟨n + 1, e, he, hcode, fun m hm => ?_⟩
      cases m with
      | zero => exact ⟨_, rfl, rfl⟩
      | succ m => exact herrors m (Nat.le_of_succ_le_succ hm)

/-- Whoever blames an unknown host does so by an error before all that are none. -/
theorem BlamesUnknownHost.before (h : v.BlamesUnknownHost) {n : Nat} {d : Thrown}
    (hd : v.causeAt? n = some d) (hother : d.isError = false) :
    ∃ m < n, ∃ e, v.causeAt? m = some e ∧ e.CarriesHostCode := by
  obtain ⟨m, e, he, hcode, herrors⟩ := h
  refine ⟨m, Nat.lt_of_not_le fun hle => ?_, e, he, hcode⟩
  obtain ⟨d', hd', herror⟩ := herrors n hle
  obtain rfl : d = d' := Option.some.inj (hd.symm.trans hd')
  rw [hother] at herror
  cases herror

end Thrown

namespace Http

open Thrown

theorem any_hostNotFoundCodes_iff (kind : ErrorKind) (message : String) (cause : Option Thrown)
    (code : Option Json) (errors : List Thrown) :
    (code? kind code).any (fun c => hostNotFoundCodes.contains c.plainText) = true ↔
      (error kind message cause code errors).CarriesHostCode := by
  have htext : (error kind message cause code errors).codeText? =
      (code? kind code).map Json.plainText := rfl
  rw [CarriesHostCode, htext]
  cases code? kind code <;> simp [hostNotFoundCodes]

/-- The chain is followed just as far as there are errors. -/
theorem isHostNotFound_iff : ∀ v : Thrown, isHostNotFound v = true ↔ v.BlamesUnknownHost
  | .error kind message none code errors => by
    rw [isHostNotFound, Bool.or_false, any_hostNotFoundCodes_iff kind message none code errors,
      blamesUnknownHost_error]
    simp
  | .error kind message (some cause) code errors => by
    rw [isHostNotFound, Bool.or_eq_true,
      any_hostNotFoundCodes_iff kind message (some cause) code errors, blamesUnknownHost_error,
      isHostNotFound_iff cause]
    simp
  | .undefined | .null | .bool _ | .number _ | .string _ | .bigint _ | .symbol _ | .function ..
  | .date _ | .object .. | .array .. | .reference _ =>
    iff_of_false nofun (not_blamesUnknownHost_of_not_isError rfl)

end Http

theorem Credential.requestToken_computeEngine (self : CredentialId) :
    ∃ next, requestToken self = .ask (.credential self) next ∧
      ∀ (c : Credential) e, c.kind = .computeEngine e → next c = e.requestToken := by
  refine ⟨_, rfl, ?_⟩
  rintro ⟨setup, kind⟩ e rfl
  rfl

theorem Session.runs_computeEngine {s : Session} {c : CredentialId} {e : ComputeEngine}
    (hkind : (s.held? c).credential.kind = .computeEngine e) : s.Runs c e.requestToken := by
  obtain ⟨next, hrequest, hnext⟩ := Credential.requestToken_computeEngine c
  have hruns := runs_requestToken s c
  rw [hrequest] at hruns
  exact hnext _ e hkind ▸ hruns.look

namespace ComputeEngine

theorem failure_of_blamesUnknownHost {thrown : Thrown} (h : thrown.BlamesUnknownHost) :
    failure thrown = (Fault.metadataServerUnavailable thrown).thrown :=
  if_pos ((Http.isHostNotFound_iff thrown).mpr h)

theorem failure_of_not_blamesUnknownHost {thrown : Thrown} (h : ¬ thrown.BlamesUnknownHost) :
    failure thrown = thrown :=
  if_neg fun hfound => h ((Http.isHostNotFound_iff thrown).mp hfound)

open Session in
/-- Whatever a request to the metadata server fails with, the refresh or the call that sent it
fails as well. The failure says that there is no metadata server, and has as its cause what was
thrown, if and only if some error in the chain of causes carries the code of a host that is not
known and everything before it in the chain is an error, too; so a code that stands behind a value
that is no error never counts. Otherwise the failure is what was thrown, as it is. -/
theorem unknown_host_told (e : ComputeEngine) :
    (∀ (s : Session) (c : CredentialId), (s.held? c).credential.kind = .computeEngine e →
      s.Runs c e.requestToken) ∧
    ∃ next, e.requestToken = .ask (.send (request e.tokenUrl)) next ∧
      ∀ thrown, ∃ failure, next (.error thrown) = .done (.error failure) ∧
        (failure.kind? = some .metadataServerUnavailable ∧ failure.cause? = some thrown ↔
          thrown.BlamesUnknownHost) ∧
        (¬ thrown.BlamesUnknownHost → failure = thrown) ∧
        (∀ n d, thrown.causeAt? n = some d → d.isError = false → thrown.BlamesUnknownHost →
          ∃ m < n, ∃ blamed, thrown.causeAt? m = some blamed ∧ blamed.CarriesHostCode) ∧
        ∀ (s : Session) i name c k,
          s.perform (.resume i (calling name (Answer.token <$> next (.error thrown)))) =
            s.observe (.answered name (.error failure)) ∧
          s.perform (.resume i (Ending.operation c k <$> (next (.error thrown)).attempt)) =
            s.stepCache c .direct (.settle k (.error failure)) := by
  refine ⟨fun s c => runs_computeEngine, receiving, requestToken_eq e, fun thrown =>
    ⟨failure thrown, rfl, ?_, failure_of_not_blamesUnknownHost, fun n d hd hother h =>
      h.before hd hother, fun s i name c k => ⟨rfl, rfl⟩⟩⟩
  constructor
  · rintro ⟨-, hcause⟩
    by_contra h
    rw [failure_of_not_blamesUnknownHost h] at hcause
    exact thrown.cause?_ne_self hcause
  · intro h
    rw [failure_of_blamesUnknownHost h]
    exact ⟨rfl, rfl⟩

def named : ComputeEngine := ⟨"http://machine"⟩

def lookupFailed : Thrown :=
  .error .transport "GET failed" (some (.fetchFailed
    (.error .plain "lookup failed" none (some (.string "EAI_AGAIN")) []))) none []

/-- The code of a host that is not known, behind a cause that is no error. -/
def lookupMasked : Thrown :=
  .because .transport "GET failed" (.object none
    [("code", .string "ENOTFOUND"),
     ("cause", .error .plain "lookup failed" none (some (.string "EAI_AGAIN")) [])])

theorem lookupFailed_blames : lookupFailed.BlamesUnknownHost :=
  (Http.isHostNotFound_iff _).mp (by decide)

theorem lookupMasked_blames_not : ¬ lookupMasked.BlamesUnknownHost := fun h =>
  absurd ((Http.isHostNotFound_iff _).mpr h) (by decide)

/-- A lookup that failed far down the chain means that there is no metadata server; behind a cause
that is no error it means nothing. -/
theorem unknown_host_told_lookup :
    lookupFailed.BlamesUnknownHost ∧ ¬ lookupMasked.BlamesUnknownHost ∧
      ∃ next, named.requestToken = .ask (.send (request named.tokenUrl)) next ∧
        (∃ failure, next (.error lookupFailed) = .done (.error failure) ∧
          failure.kind? = some .metadataServerUnavailable ∧
          failure.cause? = some lookupFailed) ∧
        next (.error lookupMasked) = .done (.error lookupMasked) := by
  obtain ⟨-, next, hsends, htold⟩ := unknown_host_told named
  refine ⟨lookupFailed_blames, lookupMasked_blames_not, next, hsends, ?_, ?_⟩
  · obtain ⟨failure, hfailure, hunavailable, -⟩ := htold lookupFailed
    exact ⟨failure, hfailure, hunavailable.mpr lookupFailed_blames⟩
  · obtain ⟨failure, hfailure, -, hsame, -⟩ := htold lookupMasked
    rwa [hsame lookupMasked_blames_not] at hfailure

end ComputeEngine
end Bearer
