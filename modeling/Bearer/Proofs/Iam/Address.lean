import Bearer.Iam.Address
import Mathlib.Data.List.Infix

namespace Bearer.Iam

/-- The mark stands in the text behind `before`, and nowhere later. -/
structure IsLast (mark before cs : List Char) : Prop where
  occurs : before ++ mark <+: cs
  last : ∀ other, other ++ mark <+: cs → other.length ≤ before.length

variable {mark before cs : List Char}

theorem IsLast.unique {other : List Char} (h : IsLast mark before cs)
    (h' : IsLast mark other cs) : before = other := by
  have hlength : before.length = other.length :=
    Nat.le_antisymm (h'.last _ h.occurs) (h.last _ h'.occurs)
  have hbefore : before <+: cs := (List.prefix_append before mark).trans h.occurs
  have hother : other <+: cs := (List.prefix_append other mark).trans h'.occurs
  exact (List.prefix_of_prefix_length_le hbefore hother hlength.le).eq_of_length hlength

theorem IsLast.cons (c : Char) (h : IsLast mark before cs) :
    IsLast mark (c :: before) (c :: cs) where
  occurs := List.cons_prefix_cons.mpr ⟨rfl, h.occurs⟩
  last
    | [], _ => Nat.zero_le _
    | _ :: other, hother =>
      Nat.succ_le_succ (h.last other (List.cons_prefix_cons.mp hother).2)

/-- The search finds the last occurrence, if there is one. -/
theorem beforeLast?_spec (mark cs : List Char) :
    match beforeLast? mark cs with
    | some before => IsLast mark before cs
    | none => ∀ before, ¬ before ++ mark <+: cs := by
  induction cs with
  | nil =>
    cases mark with
    | nil => exact ⟨List.prefix_rfl, fun other h => by simp_all⟩
    | cons c mark => intro before h; simp at h
  | cons c cs ih =>
    rw [beforeLast?]
    cases hrest : beforeLast? mark cs with
    | some before => exact IsLast.cons c (by simpa only [hrest] using ih)
    | none =>
      rw [hrest] at ih
      -- with no occurrence further on, only one at the very start is left
      have hstart : ∀ other, other ++ mark <+: c :: cs → other = [] := by
        rintro (- | ⟨d, other⟩) h
        · rfl
        · exact absurd (List.cons_prefix_cons.mp h).2 (ih other)
      by_cases h : mark <+: c :: cs
      · rw [if_pos (List.isPrefixOf_iff_prefix.mpr h)]
        exact ⟨h, fun other hother => by simp [hstart other hother]⟩
      · rw [if_neg (mt List.isPrefixOf_iff_prefix.mp h)]
        intro other hother
        obtain rfl := hstart other hother
        exact h hother

theorem beforeLast?_eq_some : beforeLast? mark cs = some before ↔ IsLast mark before cs := by
  have hspec := beforeLast?_spec mark cs
  constructor
  · intro h
    rwa [h] at hspec
  · intro h
    cases hfound : beforeLast? mark cs with
    | some found =>
      rw [hfound] at hspec
      rw [hspec.unique h]
    | none =>
      rw [hfound] at hspec
      exact absurd h.occurs (hspec before)

theorem isLast_slash_iff {rest : List Char} :
    IsLast ['/'] before (before ++ '/' :: rest) ↔ '/' ∉ rest := by
  constructor
  · intro h hmem
    obtain ⟨skipped, rest, rfl⟩ := List.append_of_mem hmem
    have hlong := h.last (before ++ '/' :: skipped) ⟨rest, by simp⟩
    rw [List.length_append, List.length_cons] at hlong
    omega
  · refine fun h => ⟨⟨rest, by simp⟩, fun other hother => ?_⟩
    obtain ⟨tail, htail⟩ := hother
    rw [List.append_assoc, List.singleton_append, List.append_eq_append_iff] at htail
    obtain ⟨more, hbefore, _⟩ | ⟨more, hother, hrest⟩ := htail
    · simp [hbefore]
    · cases more with
      | nil => simp [hother]
      | cons c more =>
        obtain ⟨-, rfl⟩ := List.cons_eq_cons.mp hrest
        exact absurd (by simp) h

theorem afterLastSlash?_eq_some {account : List Char} :
    afterLastSlash? cs = some account ↔
      '/' ∉ account ∧ ∃ before, cs = before ++ '/' :: account := by
  rw [afterLastSlash?, Option.map_eq_some_iff]
  constructor
  · rintro ⟨before, hbefore, rfl⟩
    have hlast := beforeLast?_eq_some.mp hbefore
    obtain ⟨rest, rfl⟩ := hlast.occurs
    rw [List.append_assoc, List.singleton_append] at hlast
    have hdrop : (before ++ ['/'] ++ rest).drop (before.length + 1) = rest := by simp
    rw [hdrop]
    exact ⟨isLast_slash_iff.mp hlast, before, by simp⟩
  · rintro ⟨hslash, before, rfl⟩
    exact ⟨before, beforeLast?_eq_some.mpr (isLast_slash_iff.mpr hslash), by simp⟩

/-- The address names the account: it has the account between a slash and the last mark for
generating tokens. -/
def Names (url account : String) : Prop :=
  account ≠ "" ∧ '/' ∉ account.toList ∧
    ∃ before, IsLast generateSuffix.toList (before ++ '/' :: account.toList) url.toList

theorem targetPrincipal?_eq_some {url account : String} :
    targetPrincipal? url = some account ↔ Names url account := by
  simp only [targetPrincipal?, Option.bind_eq_bind, Option.bind_eq_some_iff,
    afterLastSlash?_eq_some, beforeLast?_eq_some, Option.ite_none_left_eq_some,
    Option.some.injEq, Names]
  constructor
  · rintro ⟨_, hlast, found, ⟨hslash, before, rfl⟩, hne, rfl⟩
    rw [String.toList_ofList]
    refine ⟨fun h => hne ?_, hslash, before, hlast⟩
    simpa using congrArg String.toList h
  · rintro ⟨hne, hslash, before, hlast⟩
    exact ⟨_, hlast, account.toList, ⟨hslash, before, rfl⟩, by simpa using hne,
      String.ofList_toList⟩

/-- An address taken apart: the account stands between a slash and a mark for generating tokens,
and no other mark begins behind the beginning of that one. -/
structure Parts (url before account behind : String) : Prop where
  whole : url = before ++ "/" ++ account ++ ":generateAccessToken" ++ behind
  filled : account ≠ ""
  single : '/' ∉ account.toList
  last : ∀ earlier later, url = earlier ++ ":generateAccessToken" ++ later →
    earlier.length ≤ (before ++ "/" ++ account).length

variable {url account before behind : String}

theorem length_slash (before account : String) :
    (before ++ "/" ++ account).length = (before.toList ++ '/' :: account.toList).length := by
  rw [← String.length_toList]
  simp

theorem Parts.names (h : Parts url before account behind) : Names url account := by
  refine ⟨h.filled, h.single, before.toList, ⟨behind.toList, ?_⟩, fun other hother => ?_⟩
  · rw [h.whole]
    simp [generateSuffix]
  · obtain ⟨later, hlater⟩ := hother
    have hurl : url = String.ofList other ++ ":generateAccessToken" ++ String.ofList later := by
      rw [← String.toList_inj, ← hlater]
      simp [generateSuffix]
    have hlength := h.last _ _ hurl
    rwa [String.length_ofList, length_slash] at hlength

theorem Names.parts (h : Names url account) : ∃ before behind, Parts url before account behind := by
  obtain ⟨hfilled, hsingle, before, ⟨behind, hbehind⟩, hlast⟩ := h
  refine ⟨String.ofList before, String.ofList behind, ?_, hfilled, hsingle, ?_⟩
  · rw [← String.toList_inj, ← hbehind]
    simp [generateSuffix]
  · intro earlier later h
    have hoccurs : earlier.toList ++ generateSuffix.toList <+: url.toList := by
      refine ⟨later.toList, ?_⟩
      rw [h]
      simp [generateSuffix]
    rw [length_slash, String.toList_ofList, ← String.length_toList]
    exact hlast _ hoccurs

theorem targetPrincipal_eq_ok :
    targetPrincipal url = .ok account ↔ ∃ before behind, Parts url before account behind := by
  have hnames : targetPrincipal url = .ok account ↔ targetPrincipal? url = some account := by
    unfold targetPrincipal
    cases targetPrincipal? url with
    | some found => simp
    | none => exact iff_of_false nofun nofun
  rw [hnames, targetPrincipal?_eq_some]
  exact ⟨Names.parts, fun ⟨_, _, h⟩ => h.names⟩

theorem targetPrincipal_error {e : Thrown} (h : targetPrincipal url = .error e) :
    e.kind? = some .config := by
  unfold targetPrincipal at h
  split at h
  · cases h
  · cases h
    rfl

/-- The address that is built for an account comes apart where it was put together. -/
theorem parts_generateAccessTokenUrl (hfilled : account ≠ "") (hsingle : '/' ∉ account.toList) :
    Parts (generateAccessTokenUrl account) accountsUrl account "" := by
  refine ⟨by simp [generateAccessTokenUrl, generateSuffix], hfilled, hsingle, ?_⟩
  intro earlier later h
  have hlength := congrArg String.length h
  simp only [generateAccessTokenUrl, generateSuffix, String.length_append] at hlength ⊢
  omega

/-- The account of an address is what the address can be taken apart for, and only one account can;
an address that does not come apart is a fault of the configuration. So the account comes back from
the address that was built for it, also if the account holds a mark of its own. -/
theorem target_principal_exact :
    (∀ url account, targetPrincipal url = .ok account ↔
      ∃ before behind, Parts url before account behind) ∧
    (∀ url account other before before' behind behind', Parts url before account behind →
      Parts url before' other behind' → account = other) ∧
    (∀ url, (∃ e, targetPrincipal url = .error e ∧ e.kind? = some .config) ↔
      ¬ ∃ account before behind, Parts url before account behind) ∧
    ∀ account, account ≠ "" → '/' ∉ account.toList →
      targetPrincipal (generateAccessTokenUrl account) = .ok account := by
  refine ⟨fun _ _ => targetPrincipal_eq_ok, fun url account other _ _ _ _ h h' => ?_, fun url => ?_,
    fun account hfilled hsingle => ?_⟩
  · have haccount := targetPrincipal_eq_ok.mpr ⟨_, _, h⟩
    have hother := targetPrincipal_eq_ok.mpr ⟨_, _, h'⟩
    exact Except.ok.inj (haccount.symm.trans hother)
  · constructor
    · rintro ⟨e, he, -⟩ ⟨account, hparts⟩
      rw [targetPrincipal_eq_ok.mpr hparts] at he
      cases he
    · intro hnone
      cases hfound : targetPrincipal url with
      | ok account => exact absurd ⟨account, targetPrincipal_eq_ok.mp hfound⟩ hnone
      | error e => exact ⟨e, rfl, targetPrincipal_error hfound⟩
  · exact targetPrincipal_eq_ok.mpr ⟨_, _, parts_generateAccessTokenUrl hfilled hsingle⟩

def markedAccount : String := "robot:generateAccessToken@example"

/-- An account with a mark of its own comes back from its address, and no other one does. -/
theorem target_principal_exact_marked :
    targetPrincipal (generateAccessTokenUrl markedAccount) = .ok markedAccount ∧
      ∀ other before behind, Parts (generateAccessTokenUrl markedAccount) before other behind →
        markedAccount = other := by
  obtain ⟨-, hunique, -, hbuilt⟩ := target_principal_exact
  have hparts : Parts (generateAccessTokenUrl markedAccount) accountsUrl markedAccount "" :=
    parts_generateAccessTokenUrl (by decide) (by decide)
  exact ⟨hbuilt markedAccount (by decide) (by decide),
    fun other before behind h => hunique _ _ _ _ _ _ _ hparts h⟩

end Bearer.Iam
