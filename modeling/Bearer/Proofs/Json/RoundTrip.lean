import Bearer.Proofs.Json.Strings
import Bearer.Proofs.Number.Whole

namespace Bearer.Json

mutual

/-- Documents that come back when they are read. -/
def Tidy : Json → Prop
  | null | bool _ | string _ => True
  | number (.finite a) => ∃ n : Int, n.natAbs < 2 ^ 53 ∧ Double.finite a = Double.ofInt n
  | number _ => True
  | array items => TidyItems items
  | object members => (members.map Prod.fst).Nodup ∧
      (∀ m ∈ members, index? m.1 = none) ∧ TidyMembers members

def TidyItems : List Json → Prop
  | [] => True
  | v :: vs => Tidy v ∧ TidyItems vs

def TidyMembers : List (String × Json) → Prop
  | [] => True
  | m :: ms => Tidy m.2 ∧ TidyMembers ms

end

mutual

/-- What a written document reads back as. -/
def settled : Json → Json
  | number (.finite a) => number (.finite a)
  | number _ => null
  | array items => array (settledItems items)
  | object members => object (settledMembers members)
  | j => j

def settledItems : List Json → List Json
  | [] => []
  | v :: vs => settled v :: settledItems vs

def settledMembers : List (String × Json) → List (String × Json)
  | [] => []
  | m :: ms => (m.1, settled m.2) :: settledMembers ms

end

theorem settledMembers_names (ms : Members) :
    (settledMembers ms).map Prod.fst = ms.map Prod.fst := by
  induction ms with
  | nil => rfl
  | cons m ms ih => simp only [settledMembers, List.map_cons, ih]

theorem tidyItems_strings (ss : List String) : TidyItems (ss.map string) := by
  induction ss with
  | nil => trivial
  | cons s ss ih => exact ⟨trivial, ih⟩

theorem settledItems_strings (ss : List String) : settledItems (ss.map string) = ss.map string := by
  induction ss with
  | nil => rfl
  | cons s ss ih => simp only [List.map_cons, settledItems, settled, ih]

theorem tidy_ofInt {n : Int} (hn : n.natAbs < 2 ^ 53) : Tidy (number (.ofInt n)) := by
  rw [Double.ofInt_eq hn]
  exact ⟨n, hn, (Double.ofInt_eq hn).symm⟩

theorem settled_ofInt {n : Int} (hn : n.natAbs < 2 ^ 53) :
    settled (number (.ofInt n)) = number (.ofInt n) := by
  rw [Double.ofInt_eq hn, settled]

theorem Members.set_fresh {ms : Members} {name : String} {v : Json}
    (h : name ∉ ms.map Prod.fst) : Members.set ms name v = ms ++ [(name, v)] := by
  induction ms with
  | nil => rfl
  | cons m ms ih =>
    rw [List.map_cons, List.mem_cons, not_or] at h
    rw [Members.set, if_neg (Ne.symm h.1), ih h.2, List.cons_append]

theorem foldl_set {ms acc : Members} (h : ((acc ++ ms).map Prod.fst).Nodup) :
    ms.foldl (fun acc m => Members.set acc m.1 m.2) acc = acc ++ ms := by
  induction ms generalizing acc with
  | nil => simp
  | cons m ms ih =>
    have hfresh : m.1 ∉ acc.map Prod.fst := by
      rw [List.map_append, List.nodup_append] at h
      intro hmem
      exact h.2.2 _ hmem _ (by simp) rfl
    rw [List.foldl_cons, Members.set_fresh hfresh, ih (by simpa using h)]
    simp

/-- Members whose names differ and are no numbers make an object as they stand. -/
theorem ofMembers_eq {ms : Members} (hnames : (ms.map Prod.fst).Nodup)
    (hplain : ∀ name ∈ ms.map Prod.fst, index? name = none) : ofMembers ms = object ms := by
  have hindex (m : String × Json) (hm : m ∈ ms) : index? m.1 = none :=
    hplain m.1 (List.mem_map_of_mem hm)
  have hnumbered : ms.filterMap (fun m => (index? m.1).map (fun n => (n, m))) = [] := by
    rw [List.filterMap_eq_nil_iff]
    intro m hm
    rw [hindex m hm, Option.map_none]
  have hothers : ms.filter (fun m => (index? m.1).isNone) = ms := by
    rw [List.filter_eq_self]
    intro m hm
    rw [hindex m hm, Option.isNone_none]
  rw [ofMembers, foldl_set (by simpa using hnames), List.nil_append, inOrder, hnumbered, hothers]
  simp

theorem skip_of_not_space {c : Char} {cs : List Char} (h : isSpace c = false) :
    skip (c :: cs) = c :: cs := by
  rw [skip, List.dropWhile_cons_of_neg (by simp [h])]

/-- No other value starts like a number. -/
theorem number_head {c : Char} (hc : c = '-' ∨ c.isDigit = true) :
    isSpace c = false ∧ c ∉ [']', '{', '[', '"', 't', 'f', 'n'] := by
  have hne (d : Char) (hd : ¬ (d = '-' ∨ d.isDigit = true)) : c ≠ d := by
    rintro rfl
    exact hd hc
  constructor
  · simp [isSpace, hne ' ' (by decide), hne '\t' (by decide), hne '\n' (by decide),
      hne '\r' (by decide)]
  · simp [hne ']' (by decide), hne '{' (by decide), hne '[' (by decide), hne '"' (by decide),
      hne 't' (by decide), hne 'f' (by decide), hne 'n' (by decide)]

/-- A value starts with a character that is neither blank nor a closing bracket. -/
theorem write_head {j : Json} (hj : Tidy j) :
    ∃ c cs, write j = c :: cs ∧ isSpace c = false ∧ c ≠ ']' := by
  cases j with
  | null => exact ⟨'n', "ull".toList, rfl, by decide, by decide⟩
  | bool b =>
    cases b with
    | true => exact ⟨'t', "rue".toList, rfl, by decide, by decide⟩
    | false => exact ⟨'f', "alse".toList, rfl, by decide, by decide⟩
  | number x =>
    cases x with
    | nan => exact ⟨'n', "ull".toList, rfl, by decide, by decide⟩
    | infinite negative => exact ⟨'n', "ull".toList, rfl, by decide, by decide⟩
    | finite a =>
      obtain ⟨n, hn, ha⟩ := hj
      obtain ⟨c, cs, hchars, hc⟩ := Double.chars_ofInt_head hn
      obtain ⟨hspace, hother⟩ := number_head hc
      refine ⟨c, cs, by rw [write, writeNumber, ha, hchars], hspace, ?_⟩
      rintro rfl
      exact hother List.mem_cons_self
  | string s => exact ⟨'"', s.toList.flatMap escapeChar ++ ['"'], rfl, by decide, by decide⟩
  | array items => exact ⟨'[', writeItems items, rfl, by decide, by decide⟩
  | object members => exact ⟨'{', writeMembers members, rfl, by decide, by decide⟩

theorem readValue_number {n : Int} (hn : n.natAbs < 2 ^ 53) {rest : List Char}
    (hrest : Double.Stops rest) (fuel : Nat) :
    readValue (fuel + 1) ((Double.ofInt n).chars ++ rest) = some (number (.ofInt n), rest) := by
  have hread := Double.read?_ofInt hn hrest
  obtain ⟨c, cs, hchars, hc⟩ := Double.chars_ofInt_head hn
  obtain ⟨hspace, hother⟩ := number_head hc
  rw [hchars, List.cons_append] at hread ⊢
  simp only [List.mem_cons, List.not_mem_nil, or_false, not_or] at hother
  rw [readValue, skip_of_not_space hspace]
  simp [hother, hread]

theorem stops_of_not_digit {c : Char} {cs : List Char}
    (hc : c.isDigit = false ∧ c ≠ '.' ∧ c ≠ 'e' ∧ c ≠ 'E') : Double.Stops (c :: cs) := by
  intro d hd
  cases hd
  exact hc

mutual

theorem readValue_write (j : Json) (hj : Tidy j) (rest : List Char) (hrest : Double.Stops rest)
    (fuel : Nat) (hfuel : 2 * (write j).length + 1 ≤ fuel) :
    readValue fuel (write j ++ rest) = some (settled j, rest) := by
  obtain ⟨fuel, rfl⟩ : ∃ k, fuel = k + 1 := ⟨fuel - 1, by omega⟩
  match j with
  | null => rfl
  | bool true => rfl
  | bool false => rfl
  | number .nan => rfl
  | number (.infinite negative) => rfl
  | number (.finite a) =>
    obtain ⟨n, hn, ha⟩ := hj
    rw [settled, write, writeNumber, ha, readValue_number hn hrest]
  | string s =>
    rw [write, writeString_append, readValue, skip_of_not_space (by decide)]
    simp only [stringRest_escape]
    rfl
  | array [] => rfl
  | array (v :: vs) =>
    obtain ⟨c, cs, hhead, hspace, hbracket⟩ := write_head (hj : TidyItems (v :: vs)).1
    have hitems := readItems_write (v :: vs) hj (List.cons_ne_nil v vs) rest fuel
      (by simp only [write, List.length_cons] at hfuel; omega)
    obtain ⟨cs', hopen⟩ : ∃ cs', writeItems (v :: vs) = c :: cs' := by
      cases vs <;> simp [writeItems, hhead]
    rw [hopen, List.cons_append] at hitems
    rw [write, hopen, List.cons_append, List.cons_append, readValue, skip_of_not_space (by decide)]
    simp [skip_of_not_space hspace, hbracket, hitems, settled]
  | object [] => rfl
  | object (m :: ms) =>
    obtain ⟨hnames, hplain, htidy⟩ := hj
    have hmembers := readMembers_write (m :: ms) htidy (List.cons_ne_nil m ms) rest fuel
      (by simp only [write, List.length_cons] at hfuel; omega)
    obtain ⟨cs, hopen⟩ : ∃ cs, writeMembers (m :: ms) = '"' :: cs := by
      cases ms <;> simp [writeMembers, writeString]
    rw [hopen, List.cons_append] at hmembers
    rw [write, hopen, List.cons_append, List.cons_append, readValue, skip_of_not_space (by decide)]
    have hsettled : ofMembers (settledMembers (m :: ms)) = object (settledMembers (m :: ms)) := by
      apply ofMembers_eq
      · rwa [settledMembers_names]
      · rw [settledMembers_names]
        intro name hname
        obtain ⟨m', hm', rfl⟩ := List.mem_map.mp hname
        exact hplain m' hm'
    simp [skip_of_not_space, isSpace, hmembers, hsettled, settled]

theorem readItems_write (vs : List Json) (hvs : TidyItems vs) (hne : vs ≠ []) (rest : List Char)
    (fuel : Nat) (hfuel : 2 * (writeItems vs).length + 1 ≤ fuel) :
    readItems fuel (writeItems vs ++ rest) = some (settledItems vs, rest) := by
  obtain ⟨fuel, rfl⟩ : ∃ k, fuel = k + 1 := ⟨fuel - 1, by omega⟩
  match vs with
  | [] => exact absurd rfl hne
  | [v] =>
    have hvalue := readValue_write v hvs.1 (']' :: rest) (stops_of_not_digit (by decide)) fuel
      (by simp only [writeItems, List.length_append, List.length_singleton] at hfuel; omega)
    rw [writeItems, List.append_assoc, List.singleton_append, readItems, hvalue]
    rfl
  | v :: w :: vs =>
    have hlength : 2 * ((write v).length + (writeItems (w :: vs)).length + 1) + 1 ≤ fuel + 1 := by
      simp only [writeItems, List.length_append, List.length_cons] at hfuel ⊢
      omega
    have hvalue := readValue_write v hvs.1 (',' :: (writeItems (w :: vs) ++ rest))
      (stops_of_not_digit (by decide)) fuel (by omega)
    have hothers := readItems_write (w :: vs) hvs.2 (List.cons_ne_nil w vs) rest fuel (by omega)
    rw [writeItems.eq_3 v (w :: vs) (List.cons_ne_nil w vs), List.append_assoc, List.cons_append,
      readItems, hvalue]
    simp [skip_of_not_space, isSpace, hothers, settledItems]

theorem readMembers_write (ms : Members) (hms : TidyMembers ms) (hne : ms ≠ []) (rest : List Char)
    (fuel : Nat) (hfuel : 2 * (writeMembers ms).length + 1 ≤ fuel) :
    readMembers fuel (writeMembers ms ++ rest) = some (settledMembers ms, rest) := by
  obtain ⟨fuel, rfl⟩ : ∃ k, fuel = k + 1 := ⟨fuel - 1, by omega⟩
  match ms with
  | [] => exact absurd rfl hne
  | [(name, v)] =>
    have hvalue := readValue_write v hms.1 ('}' :: rest) (stops_of_not_digit (by decide)) fuel
      (by simp only [writeMembers, List.length_append, List.length_cons] at hfuel; omega)
    rw [writeMembers, List.append_assoc, List.append_assoc, writeString_append, List.cons_append,
      List.singleton_append, readMembers, skip_of_not_space (by decide)]
    simp [stringRest_escape, skip_of_not_space, isSpace, hvalue, settledMembers]
  | (name, v) :: m :: ms =>
    have hlength : 2 * ((write v).length + (writeMembers (m :: ms)).length + 1) + 1 ≤ fuel + 1 := by
      simp only [writeMembers, List.length_append, List.length_cons] at hfuel ⊢
      omega
    have hvalue := readValue_write v hms.1 (',' :: (writeMembers (m :: ms) ++ rest))
      (stops_of_not_digit (by decide)) fuel (by omega)
    have hothers := readMembers_write (m :: ms) hms.2 (List.cons_ne_nil m ms) rest fuel (by omega)
    rw [writeMembers.eq_3 name v (m :: ms) (List.cons_ne_nil m ms)]
    simp only [List.append_assoc, List.cons_append, writeString_append]
    rw [readMembers, skip_of_not_space (by decide)]
    simp [stringRest_escape, skip_of_not_space, isSpace, hvalue, hothers, settledMembers]

end

/-- A document reads back from its text. -/
theorem parse_render {j : Json} (hj : Tidy j) : parse (render j) = some (settled j) := by
  have hread := readValue_write j hj [] (fun c hc => nomatch hc) (2 * (write j).length + 2)
    (by omega)
  rw [List.append_nil] at hread
  rw [parse, render, String.toList_ofList]
  simp only [hread]
  rfl

end Bearer.Json
