import Mathlib
import BlockSteps.Step.Document
import BlockSteps.Proofs.Step.Numbers

/-!
# Documents are read back

The execution engine gets a document as text, and what it reads there is what was compiled: the same
steps in the same order, the same names and functions, and for every parameter the same text or the
same number, to the last bit.  Two things a document does not keep.  The path of a step is not
written at all, and the negative zero is written as zero.

Only finite numbers can be read back.  That is not a weakness of the reader: the text has no word
for the others.  And a reader in a hurry may take the digits of a number for another double than the
one that wrote them; one that takes the nearest double never does.

**Main statement.**  `Document.ofText_write`, for both layouts.
-/

namespace BlockSteps

/-! ## Parameters -/

/-- All parameters are finite. -/
def FiniteParams (params : Params) : Prop := ∀ v ∈ params.values, v.IsFinite

instance (params : Params) : Decidable (FiniteParams params) :=
  inferInstanceAs (Decidable (∀ v ∈ params.values, v.IsFinite))

section

variable [Json.Rounding]

theorem readable_dictJson {params : Params} (h : FiniteParams params)
    (hback : ∀ v ∈ params.values, v.ReadsBack) : (Scalar.dictJson params).Readable :=
  Json.readableMembers_map fun _ hp =>
    Scalar.readable_json (h _ (List.mem_map_of_mem hp)) (hback _ (List.mem_map_of_mem hp))

/-- Parameters are read back under their names. -/
theorem readParams_eq_ok {params : Params} (h : FiniteParams params) {room : Json.Room}
    {d : Json.Draft} (hd : (Scalar.dictJson params).Says d) :
    Json.readDict (Scalar.read room) d = .ok (params.map Scalar.readBack) :=
  Json.readDict_eq_ok Scalar.readBack (fun v hv _ hsays => Scalar.read_eq_ok (h v hv) room hsays) hd

end

/-! ## Steps -/

namespace Step

/-- The numbers of the step are finite. -/
structure IsFinite (s : Step) : Prop where
  /-- Those of the main function. -/
  main : FiniteParams s.mainParams
  /-- Those of the functions called before. -/
  pre : FiniteParams s.preParams
  /-- Those of the functions called after. -/
  post : FiniteParams s.postParams

instance (s : Step) : Decidable s.IsFinite :=
  decidable_of_iff
    (FiniteParams s.mainParams ∧ FiniteParams s.preParams ∧ FiniteParams s.postParams)
    ⟨fun ⟨hmain, hpre, hpost⟩ => ⟨hmain, hpre, hpost⟩, fun h => ⟨h.main, h.pre, h.post⟩⟩

/-- The parameters of the step. -/
def params (s : Step) : List Scalar :=
  s.mainParams.values ++ s.preParams.values ++ s.postParams.values

theorem IsFinite.of_mem_params {s : Step} (h : s.IsFinite) {v : Scalar} (hv : v ∈ s.params) :
    v.IsFinite := by
  rcases List.mem_append.mp hv with hv | hv
  · exact (List.mem_append.mp hv).elim (h.main v) (h.pre v)
  · exact h.post v hv

/-- What a document keeps of a step: all but the path, and zeros without their sign. -/
def readBack (s : Step) : Step :=
  { s with
    mainParams := s.mainParams.map Scalar.readBack
    preParams := s.preParams.map Scalar.readBack
    postParams := s.postParams.map Scalar.readBack
    iteration := [] }

theorem readable_json [Json.Rounding] {s : Step} (h : s.IsFinite)
    (hback : ∀ v ∈ s.params, v.ReadsBack) : s.json.Readable := by
  rw [params, List.forall_mem_append, List.forall_mem_append] at hback
  obtain ⟨⟨hmain, hpre⟩, hpost⟩ := hback
  exact ⟨trivial, trivial, trivial, readable_dictJson h.main hmain,
    Json.readableItems_map fun _ _ => trivial, readable_dictJson h.pre hpre,
    Json.readableItems_map fun _ _ => trivial, readable_dictJson h.post hpost, trivial⟩

theorem read_eq_ok [Json.Rounding] {s : Step} (h : s.IsFinite) {d : Json.Draft}
    (hd : s.json.Says d) : record.read d = .ok s.readBack := by
  unfold json at hd
  cases hd with
  | object hmembers =>
    -- The members come in the order of the fields, each under the name of its field.
    rcases hmembers with _ | ⟨⟨⟩, hmembers⟩
    rcases hmembers with _ | ⟨⟨⟩, hmembers⟩
    rcases hmembers with _ | ⟨⟨⟩, hmembers⟩
    rcases hmembers with _ | ⟨hmain, hmembers⟩
    rcases hmembers with _ | ⟨hpreFuncs, hmembers⟩
    rcases hmembers with _ | ⟨hpre, hmembers⟩
    rcases hmembers with _ | ⟨hpostFuncs, hmembers⟩
    rcases hmembers with _ | ⟨hpost, hmembers⟩
    cases hmembers
    refine Json.Record.read_of_takesAll (by simp [record, Json.Field.of]) ?_
    exact .cons (Json.Field.take_of rfl) (.cons (Json.Field.take_of rfl)
      (.cons (Json.Field.take_of rfl)
        (.cons (Json.Field.take_of (readParams_eq_ok h.main hmain))
          (.cons (Json.Field.take_of (Json.readList_texts_eq_ok hpreFuncs))
            (.cons (Json.Field.take_of (readParams_eq_ok h.pre hpre))
              (.cons (Json.Field.take_of (Json.readList_texts_eq_ok hpostFuncs))
                (.cons (Json.Field.take_of (readParams_eq_ok h.post hpost)) (.nil _))))))))

end Step

/-! ## Documents -/

namespace Document

/-- All numbers of the document are finite. -/
def IsFinite (d : Document) : Prop := ∀ s ∈ d.steps, s.IsFinite

instance (d : Document) : Decidable d.IsFinite :=
  inferInstanceAs (Decidable (∀ s ∈ d.steps, s.IsFinite))

/-- The parameters of all steps. -/
def params (d : Document) : List Scalar := d.steps.flatMap Step.params

/-- What the text of a document keeps of it. -/
def readBack (d : Document) : Document := ⟨d.steps.map Step.readBack⟩

/-- A document is read back if its numbers are. -/
theorem ofText_write_eq_ok [Json.Rounding] {d : Document} (h : d.IsFinite)
    (hback : ∀ v ∈ d.params, v.ReadsBack) (layout : Json.Layout) :
    ofText (d.write layout) = .ok d.readBack := by
  have hreadable : d.json.Readable :=
    ⟨Json.readableItems_map fun s hs =>
      Step.readable_json (h s hs) fun v hv => hback v (List.mem_flatMap.mpr ⟨s, hs, hv⟩), trivial⟩
  refine Json.readFrom_write hreadable (fun draft hdraft => ?_) layout
  unfold json at hdraft
  cases hdraft with
  | object hmembers =>
    rcases hmembers with _ | ⟨hsteps, hmembers⟩
    cases hmembers
    have hread := Json.readList_eq_ok Step.readBack
      (fun s hs _ hsays => Step.read_eq_ok (h s hs) hsays) hsteps
    have hnames : (record.fields.map Json.Field.name).Nodup := List.nodup_singleton "steps"
    exact Json.Record.read_of_takesAll hnames (.cons (Json.Field.take_of hread) (.nil _))

theorem ofText_write_nearest {d : Document} (h : d.IsFinite) (layout : Json.Layout) :
    @ofText .nearest (d.write layout) = .ok d.readBack := by
  refine @ofText_write_eq_ok .nearest d h (fun v hv => ?_) layout
  obtain ⟨s, hs, hv⟩ := List.mem_flatMap.mp hv
  exact Scalar.readsBack_nearest ((h s hs).of_mem_params hv)

/-- **The text of a document is read back.**  In either layout, a document whose numbers are finite
is read as it was written, except that the paths are gone and that a negative zero has become zero.
It is, whatever becomes of digits, as long as the text of each number is read as this number, and
that is so where the nearest double is taken. -/
theorem ofText_write {d : Document} (h : d.IsFinite) (layout : Json.Layout) :
    (∀ [Json.Rounding], (∀ v ∈ d.params, v.ReadsBack) →
      ofText (d.write layout) = .ok d.readBack) ∧
    @ofText .nearest (d.write layout) = .ok d.readBack :=
  ⟨fun {_} hback => ofText_write_eq_ok h hback layout, ofText_write_nearest h layout⟩

/-- A step in a loop, with names that have to be escaped, a number with an exponent, one beyond the
integers without gaps, and a negative zero. -/
def awkwardDocument : Document :=
  ⟨[{ id := "a\"b\n", stepName := "\u2603\u0001", mainFunc := "move_stage",
      mainParams := .ofList [("x", .number 1e-7), ("y", .number (-0.0)), ("z", .text "null")],
      preFuncs := [""], postParams := .ofList [("level", .number 9007199254740994)],
      iteration := [3, 0] }]⟩

/-- Its numbers are read back step by step, too. -/
theorem ofText_write_awkward :
    awkwardDocument.IsFinite ∧ (∀ v ∈ awkwardDocument.params, v.ReadsBack) ∧
      ofText (awkwardDocument.write .indented) = .ok awkwardDocument.readBack ∧
      @ofText .nearest (awkwardDocument.write .indented) = .ok awkwardDocument.readBack :=
  have h : awkwardDocument.IsFinite := by decide +kernel
  have hback : ∀ v ∈ awkwardDocument.params, v.ReadsBack := by decide +kernel
  have hreads := ofText_write h .indented
  ⟨h, hback, hreads.1 hback, hreads.2⟩

end Document

end BlockSteps
