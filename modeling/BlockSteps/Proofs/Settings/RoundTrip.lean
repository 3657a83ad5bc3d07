import Mathlib
import BlockSteps.Proofs.Compile.HookParameters
import BlockSteps.Proofs.Decimal.PlainText
import BlockSteps.Proofs.Json.Omission

/-!
# Settings are read back, and what they leave out has its default

The settings as JSON have a member for every part: the sections, what is in them, the hook table,
and the four parts of each bundle in it.  Every member may be left out, and the reader then puts the
default of the part, so a member under a name that the reader does not know would not be missed
either.  That the reader knows them all is therefore something to prove: the settings come back as
they were, and with any set of parts left out, exactly those are defaults.

**Parts inside parts.**  A section that is left out takes everything in it along, so the parts in it
have their defaults whether they are named or not.

**What JSON does not keep.**  The numbers of the hooks have to be finite, and the sign of a zero
among them is lost.  The greatest number of steps has to fit into a machine word.

**Main statement.**  `Settings.ofText_write_without`.
-/

namespace BlockSteps

namespace Dict

variable {α β : Type}

/-- The same names with each value replaced by one that may depend on the name. -/
def mapNamed (f : String → α → β) (d : Dict α) : Dict β :=
  ⟨d.entries.map fun p => (p.1, f p.1 p.2), by
    rw [List.pairwise_map]
    exact d.increasing⟩

theorem map_mapNamed {γ : Type} (f : β → γ) (g : String → α → β) (d : Dict α) :
    (d.mapNamed g).map f = d.mapNamed fun name x => f (g name x) :=
  ext_entries (List.map_map ..)

theorem map_eq_self {f : α → α} {d : Dict α} (h : ∀ x ∈ d.values, f x = x) : d.map f = d := by
  refine ext_entries ((List.map_congr_left fun p hp => ?_).trans (List.map_id d.entries))
  rw [h p.2 (List.mem_map_of_mem hp)]
  rfl

theorem mem_values_mapNamed {f : String → α → β} {d : Dict α} {y : β}
    (h : y ∈ (d.mapNamed f).values) : ∃ name, ∃ x ∈ d.values, y = f name x := by
  obtain ⟨q, hq, rfl⟩ := List.mem_map.mp h
  obtain ⟨p, hp, rfl⟩ := List.mem_map.mp hq
  exact ⟨p.1, p.2, List.mem_map_of_mem hp, rfl⟩

end Dict

/-! ## Parts and the ways to them -/

/-- A part of a bundle of hooks. -/
inductive HookPart where
  /-- The functions called before. -/
  | pre
  /-- The parameters of those. -/
  | preParams
  /-- The functions called after. -/
  | post
  /-- The parameters of those. -/
  | postParams
  deriving Repr, DecidableEq

/-- The name of the part. -/
def HookPart.name : HookPart → String
  | .pre => "pre"
  | .preParams => "pre_params"
  | .post => "post"
  | .postParams => "post_params"

theorem HookPart.name_injective : Function.Injective HookPart.name := by
  intro p q h
  cases p <;> cases q <;> first | rfl | exact absurd h (by decide)

namespace Settings

/-- A part of settings. -/
inductive Part where
  /-- How the program presents itself and reports. -/
  | application
  /-- Its name. -/
  | name
  /-- The least level of reports. -/
  | logLevel
  /-- The form of reports. -/
  | logFormat
  /-- What a compilation is told. -/
  | compilation
  /-- The greatest number of steps. -/
  | maxSteps
  /-- How copied steps are identified. -/
  | ids
  /-- How a workspace is read. -/
  | reading
  /-- In which order the chains are taken. -/
  | order
  /-- The hook table. -/
  | hooks
  /-- A part of the bundle that goes with a function. -/
  | hook (function : String) (part : HookPart)
  deriving Repr, DecidableEq

/-- The names on the way to a part, from the outermost object inwards. -/
def Part.way : Part → List String
  | .application => ["application"]
  | .name => ["application", "name"]
  | .logLevel => ["application", "log_level"]
  | .logFormat => ["application", "log_format"]
  | .compilation => ["compiler"]
  | .maxSteps => ["compiler", "max_steps"]
  | .ids => ["compiler", "iteration_ids"]
  | .reading => ["workspace"]
  | .order => ["workspace", "top_block_order"]
  | .hooks => ["hooks"]
  | .hook function part => ["hooks", function, part.name]

theorem Part.way_injective : Function.Injective Part.way := by
  intro p q h
  cases p <;> cases q <;> simp [way] at h ⊢
  exact ⟨h.1, HookPart.name_injective h.2⟩

theorem Part.length_way_le (p : Part) : p.way.length ≤ 3 := by
  cases p <;> exact Nat.le_of_ble_eq_true rfl

/-- Whether a part with one of the ways is left out. -/
def drops (omitted : Finset Part) (way : List String) : Bool :=
  decide (way ∈ omitted.image Part.way)

variable (omitted : Finset Part)

theorem drops_way (p : Part) : drops omitted p.way = decide (p ∈ omitted) :=
  decide_eq_decide.mpr Part.way_injective.mem_finset_image

theorem drops_eq_false {way : List String} (h : ∀ p : Part, p.way ≠ way) :
    drops omitted way = false := by
  refine decide_eq_false fun hway => ?_
  obtain ⟨p, -, hp⟩ := Finset.mem_image.mp hway
  exact h p hp

/-- A bundle is no part, only what is in it. -/
theorem drops_function (function : String) : drops omitted ["hooks", function] = false :=
  drops_eq_false omitted fun p => by cases p <;> simp [Part.way]

/-- No part is in a part of a bundle. -/
theorem drops_below_hook (function part name : String) (way : List String) :
    drops omitted ("hooks" :: function :: part :: name :: way) = false :=
  drops_eq_false omitted fun p hp => by
    have hlength := p.length_way_le
    rw [hp] at hlength
    simp only [List.length_cons] at hlength
    omega

end Settings

/-! ## Leaving parts out -/

section Without

variable (omitted : Finset Settings.Part)

/-- The section with the default of every part that is left out. -/
def Application.without (a : Application) : Application where
  name := if .name ∈ omitted then ({} : Application).name else a.name
  logLevel := if .logLevel ∈ omitted then ({} : Application).logLevel else a.logLevel
  logFormat := if .logFormat ∈ omitted then ({} : Application).logFormat else a.logFormat

/-- The section with the default of every part that is left out. -/
def Compilation.without (c : Compilation) : Compilation where
  maxSteps := if .maxSteps ∈ omitted then ({} : Compilation).maxSteps else c.maxSteps
  ids := if .ids ∈ omitted then ({} : Compilation).ids else c.ids

/-- The section with the default of every part that is left out. -/
def Reading.without (r : Reading) : Reading where
  order := if .order ∈ omitted then ({} : Reading).order else r.order

/-- The bundle of a function with the default of every part that is left out. -/
def Hooks.without (function : String) (h : Hooks) : Hooks where
  pre := if .hook function .pre ∈ omitted then ({} : Hooks).pre else h.pre
  preParams := if .hook function .preParams ∈ omitted then ({} : Hooks).preParams else h.preParams
  post := if .hook function .post ∈ omitted then ({} : Hooks).post else h.post
  postParams :=
    if .hook function .postParams ∈ omitted then ({} : Hooks).postParams else h.postParams

/-- The settings with the default of every part that is left out. -/
def Settings.without (s : Settings) : Settings where
  application :=
    if .application ∈ omitted then ({} : Settings).application else s.application.without omitted
  compilation :=
    if .compilation ∈ omitted then ({} : Settings).compilation else s.compilation.without omitted
  reading := if .reading ∈ omitted then ({} : Settings).reading else s.reading.without omitted
  hooks :=
    if .hooks ∈ omitted then ({} : Settings).hooks
    else s.hooks.mapNamed fun function h => h.without omitted function

end Without

/-- Only the negative zero is not kept as it is. -/
theorem Scalar.readBack_eq_self {v : Scalar} (hv : v.IsFinite) (hzero : v ≠ .number (-0.0)) :
    v.readBack = v := by
  cases v with
  | text s => rfl
  | number x =>
    obtain ⟨n, m, q, hparts⟩ := Decimal.isFinite_iff.mp hv
    show number (if Decimal.isZero x then 0 else x) = number x
    by_cases hx : Decimal.isZero x = true
    · obtain rfl := (Decimal.isZero_of_parts hparts).mp hx
      obtain rfl : q = -1074 := (Decimal.fits_of_parts hparts).full.resolve_left (by decide)
      have hpositive : Decimal.parts 0 = .finite false 0 (-1074) := by decide +kernel
      have hnegative : Decimal.parts (-0.0) = .finite true 0 (-1074) := by decide +kernel
      cases n with
      | false => rw [if_pos hx, Decimal.eq_of_parts hpositive hparts]
      | true => exact absurd (congrArg number (Decimal.eq_of_parts hparts hnegative)) hzero
    · rw [if_neg hx]

/-- What JSON keeps of a bundle: all but the sign of a zero. -/
def Hooks.readBack (h : Hooks) : Hooks :=
  { h with
    preParams := h.preParams.map Scalar.readBack
    postParams := h.postParams.map Scalar.readBack }

/-- What JSON keeps of settings: all but the sign of a zero. -/
def Settings.readBack (s : Settings) : Settings := { s with hooks := s.hooks.map Hooks.readBack }

/-- The parameters of all hooks. -/
def Settings.hookParams (s : Settings) : List Scalar :=
  s.hooks.values.flatMap fun h => h.preParams.values ++ h.postParams.values

theorem Settings.readBack_eq_self {s : Settings} (hfinite : ∀ h ∈ s.hooks.values, h.IsFinite)
    (hzero : .number (-0.0) ∉ s.hookParams) : s.readBack = s := by
  have hparams : ∀ {h : Hooks}, h ∈ s.hooks.values → ∀ {params : Params}, FiniteParams params →
      (∀ v ∈ params.values, v ∈ h.preParams.values ++ h.postParams.values) →
      params.map Scalar.readBack = params := by
    intro h hh params hparams hmem
    refine Dict.map_eq_self fun v hv => Scalar.readBack_eq_self (hparams v hv) ?_
    rintro rfl
    exact hzero (List.mem_flatMap.mpr ⟨h, hh, hmem _ hv⟩)
  have hhooks : s.hooks.map Hooks.readBack = s.hooks := by
    refine Dict.map_eq_self fun h hh => ?_
    rw [Hooks.readBack, hparams hh (hfinite h hh).pre fun _ => List.mem_append_left _,
      hparams hh (hfinite h hh).post fun _ => List.mem_append_right _]
  rw [readBack, hhooks]

/-! ## Reading what is left -/

namespace Settings

variable (omitted : Finset Part)

section

variable [Json.Rounding]

theorem read_application (a : Application) :
    ∀ d, ((Json.object [("name", .text a.name), ("log_level", .text a.logLevel),
        ("log_format", .text a.logFormat)]).without fun way =>
          drops omitted ("application" :: way)).Says d →
      applicationRecord.read d = .ok (a.without omitted) := by
  intro d hd
  refine Json.Record.read_without (by simp [applicationRecord, Json.Field.of]) ?_ hd
  exact .cons (drops_way omitted .name) Json.readText_eq_ok rfl
    (.cons (drops_way omitted .logLevel) Json.readText_eq_ok rfl
      (.cons (drops_way omitted .logFormat) Json.readText_eq_ok rfl (.nil _)))

theorem read_compilation (c : Compilation) :
    ∀ d, ((Json.object [("max_steps", .integer c.maxSteps),
        ("iteration_ids", .text c.ids.word)]).without fun way =>
          drops omitted ("compiler" :: way)).Says d →
      compilationRecord.read d = .ok (c.without omitted) := by
  intro d hd
  have hword : Dict.find? c.ids.word IdPolicy.words = some c.ids := by cases c.ids <;> rfl
  refine Json.Record.read_without (by simp [compilationRecord, Json.Field.of]) ?_ hd
  exact .cons (drops_way omitted .maxSteps) Json.readCount_eq_ok rfl
    (.cons (drops_way omitted .ids) (Json.readWord_eq_ok hword) rfl (.nil _))

theorem read_reading (r : Reading) :
    ∀ d, ((Json.object [("top_block_order", .text r.order.word)]).without fun way =>
        drops omitted ("workspace" :: way)).Says d →
      readingRecord.read d = .ok (r.without omitted) := by
  intro d hd
  have hword : Dict.find? r.order.word TopOrder.words = some r.order := by cases r.order <;> rfl
  refine Json.Record.read_without (by simp [readingRecord, Json.Field.of]) ?_ hd
  exact .cons (drops_way omitted .order) (Json.readWord_eq_ok hword) rfl (.nil _)

/-- The parameters of a bundle are there as a whole or not at all. -/
theorem read_params {params : Params} (h : FiniteParams params) (function part : String) :
    ∀ d, ((Scalar.dictJson params).without fun way =>
        drops omitted ("hooks" :: function :: part :: way)).Says d →
      Json.readDict (Scalar.read Hooks.paramRoom) d = .ok (params.map Scalar.readBack) := by
  intro d hd
  rw [Json.without_eq_self _ (drops_below_hook omitted function part)] at hd
  exact readParams_eq_ok h hd

theorem read_hooks {h : Hooks} (hfinite : h.IsFinite) (function : String) :
    ∀ d, (h.json.without fun way => drops omitted ("hooks" :: function :: way)).Says d →
      Hooks.record.read d = .ok (h.readBack.without omitted function) := by
  intro d hd
  refine Json.Record.read_without (by simp [Hooks.record, Json.Field.of]) ?_ hd
  exact .cons (drops_way omitted (.hook function .pre)) (fun _ => Json.readList_texts_eq_ok) rfl
    (.cons (drops_way omitted (.hook function .preParams))
      (read_params omitted hfinite.pre function "pre_params") rfl
      (.cons (drops_way omitted (.hook function .post)) (fun _ => Json.readList_texts_eq_ok) rfl
        (.cons (drops_way omitted (.hook function .postParams))
          (read_params omitted hfinite.post function "post_params") rfl (.nil _))))

omit [Json.Rounding] in
/-- No bundle of a table is left out, only parts of it. -/
theorem tableJson_without (table : HookTable) :
    (Hooks.tableJson table).without (fun way => drops omitted ("hooks" :: way)) =
      .object ((table.mapNamed Prod.mk).map fun p =>
        p.2.json.without fun way => drops omitted ("hooks" :: p.1 :: way)).entries := by
  have hkept : ∀ function, (fun way => drops omitted ("hooks" :: way)) [function] = false :=
    drops_function omitted
  rw [Hooks.tableJson, Json.without, Json.membersWithout_eq_map hkept]
  simp only [Dict.map, Dict.mapNamed, List.map_map]
  rfl

theorem read_table {table : HookTable} (hfinite : ∀ h ∈ table.values, h.IsFinite) :
    ∀ d, ((Hooks.tableJson table).without fun way => drops omitted ("hooks" :: way)).Says d →
      Json.readDict Hooks.record.read d =
        .ok ((table.map Hooks.readBack).mapNamed fun function h => h.without omitted function) := by
  intro d hd
  rw [tableJson_without] at hd
  rw [Json.readDict_eq_ok (fun p => p.2.readBack.without omitted p.1) (fun p hp d hd => ?_) hd]
  · rw [Dict.map_mapNamed]
    exact congrArg Except.ok (Dict.ext_entries (by simp [Dict.map, Dict.mapNamed]))
  · obtain ⟨function, h, hh, rfl⟩ := Dict.mem_values_mapNamed hp
    exact read_hooks omitted (hfinite h hh) function d hd

theorem readable_json {s : Settings} (hsteps : s.compilation.maxSteps < UInt64.size)
    (hfinite : ∀ h ∈ s.hooks.values, h.IsFinite) (hback : ∀ v ∈ s.hookParams, v.ReadsBack) :
    s.json.Readable := by
  have hhooks : ∀ h ∈ s.hooks.values, h.json.Readable := by
    intro h hh
    have hparams : ∀ v ∈ h.preParams.values ++ h.postParams.values, v.ReadsBack := fun v hv =>
      hback v (List.mem_flatMap.mpr ⟨h, hh, hv⟩)
    rw [List.forall_mem_append] at hparams
    exact ⟨Json.readableItems_map fun _ _ => trivial,
      readable_dictJson (hfinite h hh).pre hparams.1, Json.readableItems_map fun _ _ => trivial,
      readable_dictJson (hfinite h hh).post hparams.2, trivial⟩
  have hcount : (Json.integer s.compilation.maxSteps).Readable := by
    have : UInt64.size = 2 ^ 64 := rfl
    constructor <;> omega
  exact ⟨⟨trivial, trivial, trivial, trivial⟩, ⟨hcount, trivial, trivial⟩, ⟨trivial, trivial⟩,
    Json.readableMembers_map fun p hp => hhooks p.2 (List.mem_map_of_mem hp), trivial⟩

omit [Json.Rounding] in
theorem without_empty (s : Settings) : s.without ∅ = s := by
  have hhooks : (s.hooks.mapNamed fun function h => h.without ∅ function) = s.hooks :=
    Dict.map_eq_self fun _ _ => rfl
  rw [Settings.without, hhooks]
  rfl

/-- Settings without some of their parts are read back if their numbers are. -/
theorem ofText_without_eq_ok {s : Settings} (hsteps : s.compilation.maxSteps < UInt64.size)
    (hfinite : ∀ h ∈ s.hooks.values, h.IsFinite) (hback : ∀ v ∈ s.hookParams, v.ReadsBack)
    (layout : Json.Layout) :
    ofText ((s.json.without (drops omitted)).write layout) = .ok (s.readBack.without omitted) := by
  refine Json.readFrom_write ((readable_json hsteps hfinite hback).without _) (fun d hd => ?_)
    layout
  refine Json.Record.read_without (by simp [record, Json.Field.of]) ?_ hd
  exact .cons (drops_way omitted .application) (read_application omitted s.application) rfl
    (.cons (drops_way omitted .compilation) (read_compilation omitted s.compilation) rfl
      (.cons (drops_way omitted .reading) (read_reading omitted s.reading) rfl
        (.cons (drops_way omitted .hooks) (read_table omitted hfinite) rfl (.nil _))))

theorem ofText_write_eq_ok {s : Settings} (hsteps : s.compilation.maxSteps < UInt64.size)
    (hfinite : ∀ h ∈ s.hooks.values, h.IsFinite) (hback : ∀ v ∈ s.hookParams, v.ReadsBack)
    (layout : Json.Layout) : ofText (s.json.write layout) = .ok s.readBack := by
  have hnone := ofText_without_eq_ok ∅ hsteps hfinite hback layout
  rwa [without_empty, Json.without_eq_self _ fun name way => decide_eq_false (by simp)] at hnone

end

theorem readsBack_nearest {s : Settings} (hfinite : ∀ h ∈ s.hooks.values, h.IsFinite) :
    ∀ v ∈ s.hookParams, @Scalar.ReadsBack .nearest v := by
  intro v hv
  obtain ⟨h, hh, hv⟩ := List.mem_flatMap.mp hv
  exact Scalar.readsBack_nearest
    ((List.mem_append.mp hv).elim ((hfinite h hh).pre v) ((hfinite h hh).post v))

/-- **Settings are read back, and every part that is left out has its default.**  In either layout,
the settings without any set of parts are read, and what is read are the settings with exactly those
parts replaced by their defaults; with nothing left out, they are the same.  The numbers of the
hooks are finite, and the text of each is read as this number, which is so where the nearest double
is taken.  A negative zero among them is read as zero, and where there is none, nothing at all is
changed. -/
theorem ofText_write_without {s : Settings} (hsteps : s.compilation.maxSteps < UInt64.size)
    (hfinite : ∀ h ∈ s.hooks.values, h.IsFinite) (omitted : Finset Part) (layout : Json.Layout) :
    (∀ [Json.Rounding], (∀ v ∈ s.hookParams, v.ReadsBack) →
      ofText ((s.json.without (drops omitted)).write layout) = .ok (s.readBack.without omitted) ∧
      ofText (s.json.write layout) = .ok s.readBack) ∧
    @ofText .nearest ((s.json.without (drops omitted)).write layout) =
      .ok (s.readBack.without omitted) ∧
    @ofText .nearest (s.json.write layout) = .ok s.readBack ∧
    (.number (-0.0) ∉ s.hookParams → s.readBack = s) :=
  have hnearest := readsBack_nearest hfinite
  ⟨fun {_} hback => ⟨ofText_without_eq_ok omitted hsteps hfinite hback layout,
      ofText_write_eq_ok hsteps hfinite hback layout⟩,
    @ofText_without_eq_ok omitted .nearest s hsteps hfinite hnearest layout,
    @ofText_write_eq_ok .nearest s hsteps hfinite hnearest layout, readBack_eq_self hfinite⟩

/-- Settings in which nothing is as it is by default. -/
def busy : Settings where
  application := { name := "Bench \"7\"", logLevel := "DEBUG", logFormat := "json" }
  compilation := { maxSteps := 12, ids := .indexed }
  reading := { order := .asListed }
  hooks := .ofList [
    ("wait_time", {
      pre := ["announce"], preParams := .ofList [("level", .number 1e-7), ("to", .text "null")],
      post := ["log"], postParams := .ofList [("level", .number (-0.0))] }),
    ("", { pre := ["\n"] })]

/-- Without some of its parts, read step by step and to the nearest doubles. -/
theorem ofText_write_without_busy :
    busy.compilation.maxSteps < UInt64.size ∧ (∀ h ∈ busy.hooks.values, h.IsFinite) ∧
      (∀ v ∈ busy.hookParams, v.ReadsBack) ∧
      let text := (busy.json.without
        (drops {.logLevel, .reading, .hook "wait_time" .preParams})).write .indented
      let read := { busy with
          application := { busy.application with logLevel := "info" }
          reading := {}
          hooks := .ofList [
            ("wait_time", {
              pre := ["announce"], post := ["log"],
              postParams := .ofList [("level", .number 0)] }),
            ("", { pre := ["\n"] })] }
      ofText text = .ok read ∧ @ofText .nearest text = .ok read := by
  have hsteps : busy.compilation.maxSteps < UInt64.size := by decide
  have hparams : ∀ h ∈ busy.hooks.values, FiniteParams h.preParams ∧ FiniteParams h.postParams := by
    decide +kernel
  have hfinite : ∀ h ∈ busy.hooks.values, h.IsFinite := fun h hh =>
    ⟨(hparams h hh).1, (hparams h hh).2⟩
  have hback : ∀ v ∈ busy.hookParams, v.ReadsBack := by decide +kernel
  have hread := ofText_write_without hsteps hfinite
    {.logLevel, .reading, .hook "wait_time" .preParams} .indented
  refine ⟨hsteps, hfinite, hback, (hread.1 hback).1.trans ?_, hread.2.1.trans ?_⟩
  · exact congrArg Except.ok (by decide +kernel)
  · exact congrArg Except.ok (by decide +kernel)

end Settings

end BlockSteps
