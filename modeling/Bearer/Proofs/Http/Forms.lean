import Bearer.Http.Message
import Bearer.Proofs.Json.RoundTrip
import Bearer.Proofs.Text.Form
import Bearer.Proofs.Text.Units

namespace Bearer.Http

open Text (Utf16)

/-- The fields that a server reads in the body of a request. -/
def Request.fields? (r : Request) : Option Text.Form.Fields :=
  r.body.map fun body => Text.Form.decode body.toList

/-- The fields other than those of one name. -/
def besides (name : String) (fields : Text.Form.Fields) : Text.Form.Fields :=
  fields.filter fun f => f.1 ≠ name

def Form.besides (name : String) (form : Form) : Form := form.filter fun f => f.1.repaired ≠ name

theorem fields?_postForm (url : String) (form : Form) (headers : Headers) :
    (postForm url form headers).fields? = some (formFields form) := by
  simp only [Request.fields?, postForm, Option.map_some, Text.Form.render, String.toList_ofList,
    Text.Form.decode_encode]

theorem fields?_congr {r r' : Request} (h : r.body = r'.body) : r.fields? = r'.fields? :=
  congrArg (Option.map fun body : String => Text.Form.decode body.toList) h

/-- Leaving out the fields of a name is the same before and after they are written. -/
theorem besides_formFields (name : String) (form : Form) :
    besides name (formFields form) = formFields (form.besides name) := by
  unfold besides formFields Form.besides
  rw [List.filter_filterMap, List.filterMap_filter]
  congr 1
  funext f
  by_cases hname : f.1.repaired = name <;> cases hvalue : f.2 <;> simp [hname]

theorem formFields_ofStrings (fields : List (String × Option String)) :
    formFields (.ofStrings fields) =
      fields.filterMap fun f => f.2.map fun value => (f.1, value) := by
  unfold formFields Form.ofStrings
  rw [List.filterMap_map]
  congr 1
  funext f
  cases hvalue : f.2 <;> simp [hvalue]

/-- What a server reads in the body of a posted form is exactly the fields that have a value,
name by name and in their order, each text with the replacement for every half of a pair that is
left alone in it: a text of whole characters is read as it is. So forms that differ in what is
written of their fields never have the same body; and whatever the values of one name are, the
fields of all other names are read as they are. -/
theorem posted_fields_read_back :
    (∀ url form headers, (postForm url form headers).fields? =
      some (form.filterMap fun f => f.2.map fun value => (f.1.repaired, value.repaired))) ∧
    (∀ url fields headers, (postForm url (.ofStrings fields) headers).fields? =
      some (fields.filterMap fun f => f.2.map fun value => (f.1, value))) ∧
    (∀ (t : Utf16) i, (Utf16.ofString t.repaired).numbers[i]? =
      t.numbers[i]?.map fun u => if Text.Units.IsLone t.numbers i then 0xFFFD else u) ∧
    (∀ url url' form form' headers headers', formFields form ≠ formFields form' →
      (postForm url form headers).body ≠ (postForm url' form' headers').body) ∧
    ∀ name url url' (form form' : Form) headers headers', form.besides name = form'.besides name →
      ((postForm url form headers).fields?).map (besides name) =
        ((postForm url' form' headers').fields?).map (besides name) := by
  refine ⟨fields?_postForm, fun url fields headers => ?_, Utf16.numbers_repaired, ?_, ?_⟩
  · rw [fields?_postForm, formFields_ofStrings]
  · intro url url' form form' headers headers' hne hbody
    have hread := fields?_congr hbody
    rw [fields?_postForm, fields?_postForm] at hread
    exact hne (Option.some.inj hread)
  · intro name url url' form form' headers headers' hsame
    rw [fields?_postForm, fields?_postForm, Option.map_some, Option.map_some,
      besides_formFields, besides_formFields, hsame]

/-- A token made of separators is one value and no second field: its form is another than one
that has the field, and leaves the code as it is. -/
theorem posted_fields_read_back_separators :
    let sly := Form.ofStrings [("token", some "a&code=b"), ("code", some "x+y %2B")]
    let plain := Form.ofStrings [("token", some "a"), ("code", some "x+y %2B")]
    (postForm "" sly).body ≠ (postForm "" plain).body ∧
      ((postForm "" sly).fields?).map (besides "token") =
        ((postForm "" plain).fields?).map (besides "token") := by
  obtain ⟨-, -, -, hbodies, hothers⟩ := posted_fields_read_back
  refine ⟨hbodies "" "" _ _ [] [] ?_, hothers "token" "" "" _ _ [] [] ?_⟩
  · rw [formFields_ofStrings, formFields_ofStrings]
    decide
  · simp [Form.besides, Form.ofStrings]

/-- Half of a pair as a token is not read back: its form is another than that of the replacement,
and has the same body. -/
theorem lone_half_is_not_read_back :
    let alone : Form := [("token", some ⟨[0xD800]⟩)]
    let replaced : Form := [("token", some ⟨[0xFFFD]⟩)]
    alone ≠ replaced ∧ (postForm "" alone).body = (postForm "" replaced).body ∧
      (postForm "" alone).fields? = some [("token", "\uFFFD")] := by
  have hwritten (n : UInt16) (hn : n = 0xD800 ∨ n = 0xFFFD) :
      formFields [("token", some ⟨[n]⟩)] = [("token", "\uFFFD")] := by
    rcases hn with rfl | rfl <;> decide
  refine ⟨by decide, ?_, ?_⟩
  · simp only [postForm, hwritten _ (.inl rfl), hwritten _ (.inr rfl)]
  · rw [fields?_postForm, hwritten _ (.inl rfl)]

def Request.document? (r : Request) : Option Json := r.body.bind Json.parse

theorem document?_postJson (url : String) {data : Json} (h : data.Tidy) (headers : Headers) :
    (postJson url data headers).document? = some data.settled := Json.parse_render h

end Bearer.Http
