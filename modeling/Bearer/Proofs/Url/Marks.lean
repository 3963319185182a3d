import Bearer.Proofs.Text.Form
import Bearer.Url.Reader
import Mathlib.Data.List.TakeWhile
import Mathlib.Data.List.TakeDrop

namespace Bearer.Url

/-- Neither a question mark nor a number sign occurs in the text. -/
def Unmarked (cs : List Char) : Prop := ∀ c ∈ cs, c ≠ '?' ∧ c ≠ '#'

namespace Unmarked

variable {cs ds : List Char}

theorem nil : Unmarked [] := nofun

theorem append (hcs : Unmarked cs) (hds : Unmarked ds) : Unmarked (cs ++ ds) := by
  intro c hc
  rcases List.mem_append.mp hc with h | h
  · exact hcs c h
  · exact hds c h

theorem cons {c : Char} (hc : c ≠ '?' ∧ c ≠ '#') (hcs : Unmarked cs) : Unmarked (c :: cs) :=
  List.forall_mem_cons.mpr ⟨hc, hcs⟩

theorem of_safe {p : Char → Bool} (hcs : ∀ c ∈ cs, p c = true) (hquestion : p '?' = false)
    (hnumber : p '#' = false) : Unmarked cs := by
  refine fun c hc => ⟨?_, ?_⟩ <;> rintro rfl
  · exact absurd (hcs _ hc) (by simp [hquestion])
  · exact absurd (hcs _ hc) (by simp [hnumber])

/-- Encoding removes the marks if they are unsafe. -/
theorem encodeUnless {isUnsafe : Char → Bool} (hquestion : isUnsafe '?' = true)
    (hnumber : isUnsafe '#' = true) (cs : List Char) : Unmarked (encodeUnless isUnsafe cs) := by
  refine fun c hc => ⟨?_, ?_⟩ <;> rintro rfl <;>
    rcases Text.Percent.mem_encode hc with h | h | h
  · simp [hquestion] at h
  · cases h
  · revert h
    decide
  · simp [hnumber] at h
  · cases h
  · revert h
    decide

end Unmarked

theorem digitChar_unmarked {n : Nat} (h : n < 16) : n.digitChar ≠ '?' ∧ n.digitChar ≠ '#' := by
  have hall : ∀ m : Fin 16, m.val.digitChar ≠ '?' ∧ m.val.digitChar ≠ '#' := by decide
  exact hall ⟨n, h⟩

theorem unmarked_toDigits {base : Nat} (hbase : 1 < base) (hhex : base ≤ 16) (n : Nat) :
    Unmarked (Nat.toDigits base n) := by
  induction n using Nat.base_induction base hbase with
  | single m hm =>
    rw [Nat.toDigits_of_lt_base hm]
    exact .cons (digitChar_unmarked (Nat.lt_of_lt_of_le hm hhex)) .nil
  | digit m k hk hm ih =>
    rw [← Nat.toDigits_append_toDigits hbase hm hk, Nat.toDigits_of_lt_base hk]
    exact ih.append (.cons (digitChar_unmarked (Nat.lt_of_lt_of_le hk hhex)) .nil)

theorem unmarked_writeFourBytes (n : Nat) : Unmarked (writeFourBytes n) := by
  have hdot : '.' ≠ '?' ∧ '.' ≠ '#' := by decide
  have hbyte (k : Nat) := unmarked_toDigits (show 1 < 10 by decide) (by decide) k
  unfold writeFourBytes
  exact (((hbyte _).append (.cons hdot (hbyte _))).append (.cons hdot (hbyte _))).append
    (.cons hdot (hbyte _))

theorem unmarked_intercalate {separator : List Char} (h : Unmarked separator) :
    ∀ {parts : List (List Char)}, (∀ p ∈ parts, Unmarked p) →
      Unmarked (separator.intercalate parts)
  | [], _ => .nil
  | [p], hparts => by simpa [List.intercalate] using hparts
  | p :: q :: parts, hparts => by
    rw [List.forall_mem_cons] at hparts
    have hrest := unmarked_intercalate h hparts.2
    rw [List.intercalate] at hrest ⊢
    exact hparts.1.append (h.append hrest)

theorem unmarked_writeGroups (groups : List Nat) : Unmarked (writeGroups groups) := by
  refine unmarked_intercalate (.cons (by decide) .nil) fun p hp => ?_
  obtain ⟨n, -, rfl⟩ := List.mem_map.mp hp
  exact unmarked_toDigits (by decide) (by decide) n

theorem unmarked_writeEightGroups (groups : List Nat) : Unmarked (writeEightGroups groups) := by
  have hcolon : ':' ≠ '?' ∧ ':' ≠ '#' := by decide
  unfold writeEightGroups
  dsimp only
  refine .cons (by decide) (.append ?_ (.cons (by decide) .nil))
  split
  · exact ((unmarked_writeGroups _).append (.cons hcolon (.cons hcolon .nil))).append
      (unmarked_writeGroups _)
  · exact unmarked_writeGroups groups

theorem unmarked_domain {cs host : List Char} (h : domain? cs = some host) : Unmarked host := by
  unfold domain? at h
  dsimp only at h
  split at h
  · cases h
  · next hdomain =>
    split at h
    · obtain ⟨n, -, rfl⟩ := Option.map_eq_some_iff.mp h
      exact unmarked_writeFourBytes n
    · obtain rfl := Option.some.inj h
      simp only [not_or, Bool.not_eq_true, List.any_eq_false] at hdomain
      exact .of_safe (p := fun c => !isForbiddenInDomain c)
        (fun c hc => by simpa using hdomain.2 c hc) (by decide) (by decide)

theorem unmarked_host {cs host : List Char} (h : host? true cs = some host) : Unmarked host := by
  unfold host? at h
  split at h
  · split at h
    · obtain ⟨groups, -, rfl⟩ := Option.map_eq_some_iff.mp h
      exact unmarked_writeEightGroups groups
    · cases h
  · exact unmarked_domain h

section
variable {isFile last : Bool} {before : List (List Char)} {segment : List Char}

theorem unmarked_addSegment (hbefore : ∀ s ∈ before, Unmarked s) (hsegment : Unmarked segment) :
    ∀ s ∈ addSegment isFile last before segment, Unmarked s := by
  have hshorter : ∀ s ∈ shorten isFile before, Unmarked s := by
    unfold shorten
    split
    · split
      · exact hbefore
      · exact nofun
    · exact fun s hs => hbefore s (List.dropLast_subset _ hs)
  have husual : Unmarked (usualDriveLetter isFile before segment) := by
    unfold usualDriveLetter
    split
    · split
      · exact .cons (hsegment _ List.mem_cons_self) (.cons (by decide) .nil)
      · exact hsegment
    · exact hsegment
  have hended {list : List (List Char)} (hlist : ∀ s ∈ list, Unmarked s) :
      ∀ s ∈ if last then list ++ [[]] else list, Unmarked s := by
    split
    · exact List.forall_mem_append.mpr ⟨hlist, List.forall_mem_singleton.mpr .nil⟩
    · exact hlist
  unfold addSegment
  dsimp only
  split
  · exact hended hshorter
  · split
    · exact hended hbefore
    · exact List.forall_mem_append.mpr ⟨hbefore, List.forall_mem_singleton.mpr husual⟩

theorem unmarked_addSegments {segments : List (List Char)} (hsegments : ∀ s ∈ segments, Unmarked s)
    (hbefore : ∀ s ∈ before, Unmarked s) :
    ∀ s ∈ addSegments isFile before segments, Unmarked s := by
  induction segments generalizing before with
  | nil => exact hbefore
  | cons s segments ih =>
    rw [List.forall_mem_cons] at hsegments
    cases segments with
    | nil => exact unmarked_addSegment hbefore hsegments.1
    | cons s' segments => exact ih hsegments.2 (unmarked_addSegment hbefore hsegments.1)

end

theorem unmarked_readPath (special isFile : Bool) (cs : List Char) :
    ∀ s ∈ readPath special isFile [] cs, Unmarked s := by
  refine unmarked_addSegments (fun s hs => ?_) nofun
  obtain ⟨raw, -, rfl⟩ := List.mem_map.mp hs
  exact .encodeUnless (by decide) (by decide) raw

theorem unmarked_pathAfterAuthority (u : Url) (cs : List Char) :
    ∀ s ∈ pathAfterAuthority u cs, Unmarked s := by
  unfold pathAfterAuthority
  split
  · split
    · exact List.forall_mem_singleton.mpr .nil
    · exact nofun
  · split
    · exact unmarked_readPath _ _ _
    · exact unmarked_readPath _ _ _

theorem unmarked_pathText {list : List (List Char)} (h : ∀ s ∈ list, Unmarked s) :
    Unmarked (pathText (.segments list)) := by
  intro c hc
  obtain ⟨s, hs, hc⟩ := List.mem_flatMap.mp hc
  exact Unmarked.cons (by decide) (h s hs) c hc

/-- The text before the query. -/
def front (u : Url) : List Char := u.scheme ++ ':' :: u.authorityText ++ pathText u.path

theorem readAuthority?_eq {u u' : Url} {cs : List Char} (h : readAuthority? u cs = some u') :
    ∃ username password text host port, host? u.isSpecial text = some host ∧ u' = { u with
      username := Url.encodeUnless unsafeInUser username
      password := Url.encodeUnless unsafeInUser password
      host := some host, port } := by
  unfold readAuthority? at h
  dsimp only at h
  -- The text has a user in front, or has not.
  split at h
  all_goals
    split at h
    · cases h
    · obtain ⟨host, hhost, h⟩ := Option.bind_eq_some_iff.mp h
      obtain ⟨port, -, h⟩ := Option.bind_eq_some_iff.mp h
      exact ⟨_, _, _, host, port, hhost, (Option.some.inj h).symm⟩

theorem unmarked_authorityText {u : Url} {username password host : List Char}
    (husername : u.username = Url.encodeUnless unsafeInUser username)
    (hpassword : u.password = Url.encodeUnless unsafeInUser password)
    (hhost : u.host = some host) (h : Unmarked host) : Unmarked u.authorityText := by
  have hname : Unmarked u.username := husername ▸ .encodeUnless (by decide) (by decide) _
  have hword : Unmarked u.password := hpassword ▸ .encodeUnless (by decide) (by decide) _
  have huser : Unmarked u.userText := by
    unfold userText
    split
    · exact .nil
    · refine (hname.append ?_).append (.cons (by decide) .nil)
      split
      · exact .nil
      · exact .cons (by decide) hword
  have hport : Unmarked u.portText := by
    unfold portText
    split
    · exact .cons (by decide) (unmarked_toDigits (by decide) (by decide) _)
    · exact .nil
  unfold authorityText
  rw [hhost]
  exact ((Unmarked.cons (by decide) (.cons (by decide) huser)).append h).append hport

theorem unmarked_front_of_readFromAuthority {scheme : List Char} {c : Cut} {u : Url}
    (h : readFromAuthority? { scheme } c = some u) (hscheme : Unmarked scheme)
    (hspecial : isSpecialScheme scheme = true) : Unmarked u.front := by
  obtain ⟨v, hv, h⟩ := Option.bind_eq_some_iff.mp h
  obtain ⟨username, password, text, host, port, hhost, rfl⟩ := readAuthority?_eq hv
  obtain rfl := Option.some.inj h
  have hhost' : host? true text = some host := by rwa [isSpecial, hspecial] at hhost
  refine (hscheme.append (.cons (by decide) ?_)).append
    (unmarked_pathText (unmarked_pathAfterAuthority _ _))
  exact unmarked_authorityText rfl rfl rfl (unmarked_host hhost')

theorem scheme_of_readFromAuthority {u u' : Url} {c : Cut} (h : readFromAuthority? u c = some u') :
    u'.scheme = u.scheme := by
  obtain ⟨v, hv, h⟩ := Option.bind_eq_some_iff.mp h
  obtain ⟨username, password, text, host, port, -, rfl⟩ := readAuthority?_eq hv
  obtain rfl := Option.some.inj h
  rfl

theorem scheme_of_readFile {c : Cut} {u : Url} (h : readFile? none c = some u) :
    u.scheme = fileScheme := by
  unfold readFile? at h
  dsimp only [Option.filter_none] at h
  split at h
  · split at h
    · split at h
      · split at h
        · split at h
          · obtain rfl := Option.some.inj h
            rfl
          · obtain ⟨host, -, h⟩ := Option.bind_eq_some_iff.mp h
            obtain rfl := Option.some.inj h
            rfl
        · obtain rfl := Option.some.inj h
          rfl
      · obtain rfl := Option.some.inj h
        rfl
    · obtain rfl := Option.some.inj h
      rfl
  · obtain rfl := Option.some.inj h
    rfl

/-- The schemes of the web. -/
def isWeb (u : Url) : Prop := u.scheme = "http".toList ∨ u.scheme = "https".toList

theorem isSpecialScheme_of_isWeb {u : Url} (h : u.isWeb) : isSpecialScheme u.scheme = true := by
  rcases h with h | h <;> rw [h] <;> decide

/-- An address of the web that stands by itself is read from its authority on. -/
theorem readFromAuthority_of_isWeb {text : String} {u : Url} (h : read? text = some u)
    (hweb : u.isWeb) : ∃ c, readFromAuthority? { scheme := u.scheme } c = some u := by
  have hspecial := isSpecialScheme_of_isWeb hweb
  unfold read? at h
  dsimp only at h
  split at h
  · next scheme rest _ =>
    unfold readAfterScheme? at h
    dsimp only [Option.filter_none] at h
    split at h
    · have hfile := scheme_of_readFile h
      rcases hweb with hweb | hweb <;> rw [hweb] at hfile <;> exact absurd hfile (by decide)
    · split at h
      · obtain rfl := scheme_of_readFromAuthority h
        exact ⟨_, h⟩
      · next hnot =>
        have hscheme : u.scheme = scheme := by
          split at h
          · exact scheme_of_readFromAuthority h
          · obtain rfl := Option.some.inj h
            rfl
          · obtain rfl := Option.some.inj h
            rfl
        rw [hscheme] at hspecial
        exact absurd hspecial hnot
  · cases h

/-- What stands before the query of an address of the web holds no mark that ends it. -/
theorem unmarked_front {text : String} {u : Url} (h : read? text = some u) (hweb : u.isWeb) :
    Unmarked u.front := by
  obtain ⟨c, hread⟩ := readFromAuthority_of_isWeb h hweb
  have hscheme : Unmarked u.scheme := by
    rcases hweb with hweb | hweb <;> rw [hweb] <;> exact .of_safe (p := Char.isAlpha)
      (List.all_eq_true.mp (by decide)) (by decide) (by decide)
  exact unmarked_front_of_readFromAuthority hread hscheme (isSpecialScheme_of_isWeb hweb)

theorem cut_optionalText {mark : Char} {cs : List Char} (h : mark ∉ cs)
    (rest : Option (List Char)) : cut mark (cs ++ optionalText mark rest) = (cs, rest) := by
  have hcs : ∀ c ∈ cs, decide (c ≠ mark) = true := by
    rintro c hc
    rw [decide_eq_true_iff]
    rintro rfl
    exact h hc
  rw [cut, List.span_eq_takeWhile_dropWhile]
  cases rest with
  | some rest =>
    rw [optionalText, List.takeWhile_append_of_pos hcs, List.dropWhile_append_of_pos hcs,
      List.takeWhile_cons_of_neg (by simp), List.dropWhile_cons_of_neg (by simp), List.append_nil]
  | none =>
    rw [optionalText, List.append_nil, List.takeWhile_eq_self_iff.mpr hcs,
      List.dropWhile_eq_nil_iff.mpr hcs]

/-- The fields that are found in the text of an address, between its first question mark and the
first number sign. -/
def fieldsIn (text : String) : Text.Form.Fields :=
  Text.Form.decode ((cut '?' (cut '#' text.toList).1).2.getD [])

/-- They are the fields of the address, if no mark ends its front or its query too early. -/
theorem fieldsIn_text {u : Url} (hfront : Unmarked u.front) (hquery : '#' ∉ u.query.getD []) :
    fieldsIn u.text = u.fields := by
  have hnumber : '#' ∉ u.front ++ optionalText '?' u.query := by
    rw [List.mem_append, not_or]
    refine ⟨fun h => (hfront _ h).2 rfl, ?_⟩
    cases hq : u.query with
    | none => exact nofun
    | some q =>
      rw [hq] at hquery
      rw [optionalText, List.mem_cons, not_or]
      exact ⟨by decide, hquery⟩
  have htext :
      u.text.toList = u.front ++ optionalText '?' u.query ++ optionalText '#' u.fragment := by
    rw [text, String.toList_ofList, chars, front]
  rw [fieldsIn, htext, cut_optionalText hnumber, cut_optionalText fun h => (hfront _ h).1 rfl]
  rfl

theorem fields_withFields (u : Url) (fs : Text.Form.Fields) : (u.withFields fs).fields = fs := by
  cases fs with
  | nil => rfl
  | cons f fs => exact Text.Form.decode_encode (f :: fs)

theorem number_not_mem_withFields (u : Url) (fs : Text.Form.Fields) :
    '#' ∉ (u.withFields fs).query.getD [] := by
  cases fs with
  | nil => exact nofun
  | cons f fs =>
    intro h
    rcases Text.Form.mem_encode (show '#' ∈ Text.Form.encode (f :: fs) from h) with h | h | ⟨s, h⟩
    · cases h
    · cases h
    · rcases Text.Form.mem_encodeText h with h | h | h | h <;> revert h <;> decide

end Bearer.Url
