import Mathlib
import BlockSteps.CommandLine.Directory
import BlockSteps.Proofs.Compile.Outcome
import BlockSteps.Proofs.Json.Reading
import BlockSteps.Proofs.Step.RoundTrip

/-!
# What runs agree on

A workspace is checked to learn beforehand whether it can be compiled, and how long the document
will be.  So the two commands have to agree, and they do because both are one computation up to the
document (`documentFor`): the settings, the choices, the workspace, the program.  Only behind that
they part, and only there anything is put out.

**Main statement.**  `runs_agree`, for every directory in which the document is to be written, and
for whatever is found besides: any bytes for the settings and for the workspace, or none, and any
environment.  A command line in a directory is such a run (`Directory.perform_eq`).

* a run of `compile` ends well exactly if there is a document, if the file can be written.  Then
  the text of the document is delivered, with a line feed behind it and nothing besides
  (`Directory.Delivered`).  It is indented, and the document can be read off it (`Presents`).  If
  there is no document, nothing is put out and no file is touched;
* a run of `check` ends well exactly if one of `compile` does that sets no limit of its own, and it
  names the number of steps of the document;
* writing the ids of copies with their paths changes neither.

The last two rest on the compiler, which looks at the policy for ids when all steps are there
(`Workspace.map_length_compile`).
-/

namespace BlockSteps

/-! ## Compilations under both policies -/

namespace Workspace

variable {ws : Workspace} {opts opts' : Options}

/-- Steps are found before ids are written. -/
theorem chainOutcome_congr (hlimit : opts'.maxSteps = opts.maxSteps)
    (hhooks : opts'.hooks = opts.hooks) (nest : Nat) (head : Block) :
    ws.chainOutcome opts' nest head = ws.chainOutcome opts nest head := by
  induction nest generalizing head with
  | zero => rfl
  | succ nest ih =>
    have hparts : ws.contributionOutcome opts' (ws.chainOutcome opts' nest) =
        ws.contributionOutcome opts (ws.chainOutcome opts nest) := by
      funext b
      unfold contributionOutcome
      rw [hlimit, hhooks, funext ih]
    unfold chainOutcome
    rw [hparts, hlimit]

theorem chainsOutcome_congr (hlimit : opts'.maxSteps = opts.maxSteps)
    (hhooks : opts'.hooks = opts.hooks) (done : Nat) (ids : List BlockId) :
    ws.chainsOutcome opts' done ids = ws.chainsOutcome opts done ids := by
  induction ids generalizing done with
  | nil => rfl
  | cons id rest ih =>
    unfold chainsOutcome
    simp only [chainOutcome_congr hlimit hhooks, hlimit, ih]

/-- Options with one limit and one hook table give documents of one length, or one error. -/
theorem map_length_compile (hlimit : opts'.maxSteps = opts.maxSteps)
    (hhooks : opts'.hooks = opts.hooks) :
    (ws.compile opts').map Document.length = (ws.compile opts).map Document.length := by
  rw [compile, compile, compileFrom_eq, compileFrom_eq, chainsOutcome_congr hlimit hhooks]
  cases ws.chainsOutcome opts 0 ws.topIds with
  | error e => rfl
  | ok steps => simp [Except.map]

/-- What comes of a file is what comes of its text, if it has one. -/
theorem outcome_loadFile (order : TopOrder) (path : String) (bytes : Option ByteArray) :
    (loadFile order path bytes).outcome =
      match bytes.bind String.fromUTF8? with
      | none => .error .unreadable
      | some text => ofText order text := by
  unfold loadFile
  cases bytes.bind String.fromUTF8? with
  | none => rfl
  | some text =>
    dsimp only
    unfold load
    rw [Traced.outcome_bind]
    cases hws : ofText order text with
    | error e => rfl
    | ok ws => rfl

end Workspace

namespace CommandLine

/-! ## Up to the document -/

/-- The document that is asked for, or what keeps it from being made. -/
def documentFor (inv : Invocation) (s : Surroundings) (flags : CompileFlags) :
    Except Refusal Document := do
  let settings ← settingsOf inv s
  let opts ← optionsOf settings flags
  documentOf inv s settings opts

variable {inv : Invocation} {s : Surroundings} {flags flags' : CompileFlags}

theorem documentOf_eq_ok_iff {settings : Settings} {opts : Options} {doc : Document} :
    documentOf inv s settings opts = .ok doc ↔
      ∃ text ws, s.workspace.bind String.fromUTF8? = some text ∧
        Workspace.ofText settings.reading.order text = .ok ws ∧ ws.compile opts = .ok doc := by
  unfold documentOf
  rw [Workspace.outcome_loadFile]
  cases s.workspace.bind String.fromUTF8? with
  | none => simp
  | some text =>
    dsimp only
    cases hws : Workspace.ofText settings.reading.order text with
    | error e => simp [hws]
    | ok ws =>
      dsimp only
      cases hdoc : ws.compile opts with
      | error f => simp [hws, hdoc]
      | ok doc' => simp [hws, hdoc]

/-- There is a document exactly if the settings are accepted, the choices leave a limit, the file is
a text that loads, and its workspace compiles.  The document is that of the workspace. -/
theorem documentFor_eq_ok_iff {doc : Document} :
    documentFor inv s flags = .ok doc ↔
      ∃ settings opts text ws, settingsOf inv s = .ok settings ∧
        optionsOf settings flags = .ok opts ∧
        s.workspace.bind String.fromUTF8? = some text ∧
        Workspace.ofText settings.reading.order text = .ok ws ∧ ws.compile opts = .ok doc := by
  unfold documentFor
  simp only [bind_eq_ok_iff, documentOf_eq_ok_iff, exists_and_left]

/-- How a check comes out where there is a document. -/
def checkOutcome (inv : Invocation) (doc : Document) : Outcome :=
  { output := "✅ " ++ inv.workspace ++ " compiles to " ++
      String.ofList (Decimal.natChars doc.length) ++ " step(s)\n" }

/-- The text of a document, with a line feed behind it. -/
def textOf (doc : Document) : String := doc.write .indented ++ "\n"

theorem toList_textOf (doc : Document) :
    (textOf doc).toList = Json.chars .indented 0 doc.json ++ ['\n'] := by
  rw [textOf, String.toList_append, Document.write, Json.toList_write]
  rfl

/-- The text says what the document is, and is laid out with one item per line. -/
structure Presents (text : String) (doc : Document) : Prop where
  /-- The blanks are those of the indented layout. -/
  indented : Json.IsIndented text
  /-- Without them, the text is the compact one. -/
  squeezed : Json.squeezed .outside text.toList = (doc.write .compact).toList
  /-- The document is read off the text, if its numbers have digits. -/
  reads : doc.IsFinite → @Document.ofText .nearest text = .ok doc.readBack

theorem presents_write (doc : Document) : Presents (doc.write .indented) doc where
  indented := Json.isIndented_write doc.json
  squeezed := Json.squeezed_write .indented doc.json
  reads hfinite := Document.ofText_write_nearest hfinite .indented

/-- How a compilation comes out where there is a document. -/
def compileOutcome (output : Option String) (doc : Document) : Outcome :=
  match output with
  | none => { output := textOf doc }
  | some path => { file := some (path, textOf doc) }

/-- What comes out of the document, or of what keeps it from being made. -/
def outcomeOf (f : Document → Outcome) : Except Refusal Document → Outcome
  | .ok doc => f doc
  | .error r => .refused r

theorem run_check (h : inv.command = .check) :
    run inv s = outcomeOf (checkOutcome inv) (documentFor inv s {}) := by
  unfold run perform documentFor
  rw [h]
  cases settingsOf inv s with
  | error r => rfl
  | ok settings =>
    simp only [ok_bind, show optionsOf settings {} = .ok settings.options from rfl]
    cases documentOf inv s settings settings.options with
    | error r => rfl
    | ok doc => rfl

theorem run_compile (h : inv.command = .compile flags) :
    run inv s = outcomeOf (compileOutcome flags.output) (documentFor inv s flags) := by
  unfold run perform documentFor
  rw [h]
  cases settingsOf inv s with
  | error r => rfl
  | ok settings =>
    simp only [ok_bind]
    cases optionsOf settings flags with
    | error r => rfl
    | ok opts =>
      simp only [ok_bind]
      cases documentOf inv s settings opts with
      | error r => rfl
      | ok doc =>
        simp only [ok_bind, outcomeOf, compileOutcome, textOf]
        cases flags.output with
        | none => rfl
        | some path => rfl

/-- But for the limit, the choices of the command line concern the policy for ids only. -/
theorem exists_optionsOf_eq (settings : Settings) (flags : CompileFlags) :
    ∃ ids, optionsOf settings flags =
      match flags.maxSteps with
      | none => .ok { settings.options with ids := ids }
      | some n =>
        if n = 0 then .error .noSteps
        else .ok { settings.options with ids := ids, maxSteps := n } := by
  unfold optionsOf
  cases flags.indexedIds with
  | false => exact ⟨settings.options.ids, rfl⟩
  | true => exact ⟨.indexed, rfl⟩

theorem map_length_documentOf {settings : Settings} {opts opts' : Options}
    (hlimit : opts'.maxSteps = opts.maxSteps) (hhooks : opts'.hooks = opts.hooks) :
    (documentOf inv s settings opts').map Document.length =
      (documentOf inv s settings opts).map Document.length := by
  unfold documentOf
  cases (Workspace.loadFile settings.reading.order inv.workspace s.workspace).outcome with
  | error e => rfl
  | ok ws =>
    have hlength := ws.map_length_compile hlimit hhooks
    dsimp only
    generalize ws.compile opts' = compiled' at hlength ⊢
    generalize ws.compile opts = compiled at hlength ⊢
    cases compiled' with
    | error f' =>
      cases compiled with
      | error f => rfl
      | ok doc => cases hlength
    | ok doc' =>
      cases compiled with
      | error f => cases hlength
      | ok doc => exact congrArg Except.ok (Except.ok.inj hlength)

/-- Documents for one limit are of one length, or there is none of them. -/
theorem map_length_documentFor (h : flags'.maxSteps = flags.maxSteps) :
    (documentFor inv s flags').map Document.length =
      (documentFor inv s flags).map Document.length := by
  unfold documentFor
  cases settingsOf inv s with
  | error r => rfl
  | ok settings =>
    obtain ⟨ids, hopts⟩ := exists_optionsOf_eq settings flags
    obtain ⟨ids', hopts'⟩ := exists_optionsOf_eq settings flags'
    simp only [ok_bind]
    rw [hopts, hopts', h]
    cases flags.maxSteps with
    | none => exact map_length_documentOf rfl rfl
    | some n =>
      by_cases hn : n = 0
      · simp only [if_pos hn]
      · simp only [if_neg hn]
        exact map_length_documentOf rfl rfl

/-- So there is a document for both or for neither, and both are of one length. -/
theorem documentFor_agree (inv : Invocation) (s : Surroundings)
    (h : flags'.maxSteps = flags.maxSteps) :
    ((∃ doc, documentFor inv s flags' = .ok doc) ↔ ∃ doc, documentFor inv s flags = .ok doc) ∧
    ∀ doc doc', documentFor inv s flags = .ok doc → documentFor inv s flags' = .ok doc' →
      doc'.length = doc.length := by
  have hlength : (documentFor inv s flags').map Document.length =
      (documentFor inv s flags).map Document.length := map_length_documentFor h
  cases hdoc' : documentFor inv s flags' with
  | error r' =>
    cases hdoc : documentFor inv s flags with
    | error r => simp
    | ok doc =>
      rw [hdoc', hdoc] at hlength
      cases hlength
  | ok doc' =>
    cases hdoc : documentFor inv s flags with
    | error r =>
      rw [hdoc', hdoc] at hlength
      cases hlength
    | ok doc =>
      rw [hdoc', hdoc] at hlength
      have heq : doc'.length = doc.length := Except.ok.inj hlength
      simp [heq]

/-! ## In a directory -/

namespace Directory

variable {d : Directory} {environment : List (String × String)} {args : List String}

/-- What a run in the directory depends on besides its command line. -/
def around (d : Directory) (inv : Invocation) (environment : List (String × String)) :
    Surroundings :=
  ⟨d.configAt (inv.config.getD defaultConfig), (d.read? inv.workspace).map String.toUTF8,
    environment⟩

theorem perform_eq (h : Invocation.ofArgs args = .ok inv) :
    d.perform args environment = d.settle (run inv (d.around inv environment)) := by
  unfold perform
  rw [h]
  rfl

/-- A file can be written at the path, whatever its content. -/
def Writable (d : Directory) (path : String) : Prop := ∀ content, (d.write? path content).isSome

/-- The document is what a run puts out: its text with a line feed behind it, on the standard output
or in a file.  If it is in a file then the standard output is empty, unless the file is the device
that leads there, and every other file is as before. -/
def Delivered (d : Directory) (output : Option String) (doc : Document) (r : Report) : Prop :=
  match output with
  | none => r.output = textOf doc ∧ r.directory = d
  | some path =>
    match d.find path with
    | .file names | .free names =>
      r.output = "" ∧ ∀ way, r.directory.contentAt? way =
        if way = names then some (textOf doc) else d.contentAt? way
    | .device names =>
      r.output = (if names = outputDevice then textOf doc else "") ∧ r.directory = d
    | .directory _ | .nowhere => False

theorem Delivered.of_free {path : String} {names : List String} {doc : Document} {r : Report}
    (h : d.Delivered (some path) doc r) (hfind : d.find path = .free names) :
    r.output = "" ∧ r.directory.contentAt? names = some (textOf doc) := by
  unfold Delivered at h
  dsimp only at h
  rw [hfind] at h
  exact ⟨h.1, (h.2 names).trans (if_pos rfl)⟩

/-- A file that is written holds what was written, and no other file is touched. -/
theorem contentAt?_put (names way : List String) (content : String) :
    Directory.contentAt? ⟨(names, content) :: d.files.filter fun f => f.1 != names⟩ way =
      if way = names then some content else d.contentAt? way := by
  unfold contentAt?
  by_cases hway : way = names
  · simp [hway]
  · have hfirst : ¬ (names == way) = true := by simpa using Ne.symm hway
    rw [if_neg hway, List.find?_cons_of_neg (by simpa using hfirst), List.find?_filter]
    congr 2
    funext f
    by_cases hf : f.1 = way
    · simp [hf, hway]
    · simp [hf]

/-- What a compilation leaves behind where there is a document. -/
theorem delivered_settle {output : Option String} (doc : Document)
    (hwritable : ∀ path, output = some path → d.Writable path) :
    d.Delivered output doc (d.settle (compileOutcome output doc)) ∧
      (d.settle (compileOutcome output doc)).code = 0 := by
  cases output with
  | none => exact ⟨⟨rfl, rfl⟩, rfl⟩
  | some path =>
    have hwritten := hwritable path rfl (textOf doc)
    unfold write? at hwritten
    unfold Delivered compileOutcome settle write?
    dsimp only
    cases hfind : d.find path with
    | file names => exact ⟨⟨rfl, fun way => contentAt?_put names way (textOf doc)⟩, rfl⟩
    | free names => exact ⟨⟨rfl, fun way => contentAt?_put names way (textOf doc)⟩, rfl⟩
    | device names =>
      refine ⟨⟨?_, rfl⟩, rfl⟩
      by_cases hnames : names = outputDevice
      · simp [hnames, Outcome.afterWriting]
      · simp [hnames, Outcome.afterWriting]
    | directory names =>
      rw [hfind] at hwritten
      cases hwritten
    | nowhere =>
      rw [hfind] at hwritten
      cases hwritten

/-- Where a compilation fails, nothing is put out. -/
theorem untouched_of_code {output : Option String} {x : Except Refusal Document}
    (h : (d.settle (outcomeOf (compileOutcome output) x)).code ≠ 0) :
    (d.settle (outcomeOf (compileOutcome output) x)).output = "" ∧
      (d.settle (outcomeOf (compileOutcome output) x)).directory = d := by
  cases x with
  | error r => exact ⟨rfl, rfl⟩
  | ok doc =>
    cases output with
    | none => exact absurd rfl h
    | some path =>
      unfold outcomeOf compileOutcome settle write? at h ⊢
      dsimp only at h ⊢
      cases hfind : d.find path with
      | file names | free names | device names =>
        rw [hfind] at h
        exact absurd rfl h
      | directory names | nowhere => exact ⟨rfl, rfl⟩

/-- A compilation ends well exactly if there is a document. -/
theorem code_compileOutcome {output : Option String} {x : Except Refusal Document}
    (hwritable : ∀ path, output = some path → d.Writable path) :
    (d.settle (outcomeOf (compileOutcome output) x)).code = 0 ↔ ∃ doc, x = .ok doc := by
  cases x with
  | error r => exact ⟨nofun, nofun⟩
  | ok doc => exact ⟨fun _ => ⟨doc, rfl⟩, fun _ => (delivered_settle doc hwritable).2⟩

/-- A check ends well exactly if there is a document. -/
theorem code_checkOutcome {x : Except Refusal Document} :
    (d.settle (outcomeOf (checkOutcome inv) x)).code = 0 ↔ ∃ doc, x = .ok doc := by
  cases x with
  | error r => exact ⟨nofun, nofun⟩
  | ok doc => exact ⟨fun _ => ⟨doc, rfl⟩, fun _ => rfl⟩

end Directory

/-! ## Both commands -/

/-- **Runs agree, and a run that fails leaves nothing behind.**  Up to the document a check and a
compilation are one computation.  What is put out of it is the number of its steps or its text: an
indented one, off which the document can be read, and a line feed. -/
theorem runs_agree (d : Directory) (s : Surroundings) (config : Option String) (workspace : String)
    (flags : CompileFlags) (hwritable : ∀ path, flags.output = some path → d.Writable path) :
    let document := documentFor ⟨config, workspace, .compile flags⟩ s
    let compiled := d.settle (run ⟨config, workspace, .compile flags⟩ s)
    let checked := d.settle (run ⟨config, workspace, .check⟩ s)
    let indexed :=
      d.settle (run ⟨config, workspace, .compile { flags with indexedIds := true }⟩ s)
    (compiled.code = 0 ↔ ∃ doc, document flags = .ok doc) ∧
    (∀ doc, document flags = .ok doc → d.Delivered flags.output doc compiled ∧
      ∃ text, textOf doc = text ++ "\n" ∧ Presents text doc) ∧
    (compiled.code ≠ 0 → compiled.output = "" ∧ compiled.directory = d) ∧
    (flags.maxSteps = none → (checked.code = 0 ↔ compiled.code = 0) ∧
      ∀ doc, document flags = .ok doc → checked.output = "✅ " ++ workspace ++ " compiles to " ++
        String.ofList (Decimal.natChars doc.length) ++ " step(s)\n") ∧
    (indexed.code = 0 ↔ compiled.code = 0) ∧
    ∀ doc doc', document flags = .ok doc → document { flags with indexedIds := true } = .ok doc' →
      doc'.length = doc.length := by
  intro document compiled checked indexed
  have hchecked : checked =
      d.settle (outcomeOf (checkOutcome ⟨config, workspace, .check⟩) (document {})) :=
    congrArg d.settle (run_check rfl)
  have hcompiled : compiled =
      d.settle (outcomeOf (compileOutcome flags.output) (document flags)) :=
    congrArg d.settle (run_compile rfl)
  have hindexed : indexed = d.settle (outcomeOf (compileOutcome flags.output)
      (document { flags with indexedIds := true })) :=
    congrArg d.settle (run_compile rfl)
  have hcode : compiled.code = 0 ↔ ∃ doc, document flags = .ok doc := by
    rw [hcompiled]
    exact Directory.code_compileOutcome hwritable
  refine ⟨hcode, ?_, ?_, ?_, ?_⟩
  · intro doc hdoc
    rw [hcompiled, hdoc]
    exact ⟨(Directory.delivered_settle doc hwritable).1, _, rfl, presents_write doc⟩
  · rw [hcompiled]
    exact Directory.untouched_of_code
  · intro hnone
    have hlimit : flags.maxSteps = ({} : CompileFlags).maxSteps := hnone
    obtain ⟨hboth, hlength⟩ := documentFor_agree ⟨config, workspace, .compile flags⟩ s hlimit
    constructor
    · rw [hcode, hchecked, Directory.code_checkOutcome]
      exact hboth.symm
    · intro doc hdoc
      obtain ⟨doc', hdoc'⟩ := hboth.mp ⟨doc, hdoc⟩
      have hcount : doc.length = doc'.length := hlength doc' doc hdoc' hdoc
      rw [hchecked, show document {} = .ok doc' from hdoc', hcount]
      rfl
  · have hlimit : ({ flags with indexedIds := true } : CompileFlags).maxSteps =
        flags.maxSteps := rfl
    obtain ⟨hboth, hlength⟩ := documentFor_agree ⟨config, workspace, .compile flags⟩ s hlimit
    refine ⟨?_, hlength⟩
    rw [hindexed, Directory.code_compileOutcome hwritable, hcode]
    exact hboth

/-- The bytes of a text are those of no other. -/
theorem fromUTF8?_toUTF8 (text : String) : String.fromUTF8? text.toUTF8 = some text :=
  dif_pos text.isValidUTF8

/-- A text with a loop of two turns around a wait. -/
def twiceText : String := "\x7b\"blocks\": \x7b\"blocks\": [
  \x7b\"type\": \"controls_repeat\", \"id\": \"r\", \"fields\": \x7b\"TIMES\": 2\x7d,
    \"inputs\": \x7b\"DO\": \x7b\"block\":
      \x7b\"type\": \"wait_time_block\", \"id\": \"w\"\x7d\x7d\x7d\x7d]\x7d\x7d"

/-- The blocks of `twiceText`. -/
def twice : Workspace where
  blocks := #[
    { id := "w", type := "wait_time_block" },
    { id := "r", type := "controls_repeat", fields := .ofList [("TIMES", .number 2)],
      statements := .ofList [("DO", "w")] }]

set_option maxRecDepth 5000 in
theorem ofText_twiceText : Workspace.ofText .position twiceText = .ok twice := by
  apply eq_ok_of_toOption
  rw [Workspace.ofText, SavedBlock.ofText, Json.readFrom,
    Json.Draft.ofText_eq (show twiceText = String.ofList _ by exact rfl)]
  decide +kernel

/-- The document of `twice`. -/
def twiceDocument : Document :=
  ⟨[[0], [1]].map fun path =>
    { id := "w", stepName := "Wait Time", mainFunc := "wait_time",
      mainParams := .ofList [("seconds", .number 1)], iteration := path }⟩

/-- Its text, with a line feed behind it. -/
def twiceOutput : String := "\x7b
  \"steps\": [
    \x7b
      \"id\": \"w\",
      \"stepName\": \"Wait Time\",
      \"mainFuncName\": \"wait_time\",
      \"mainParams\": \x7b
        \"seconds\": 1
      \x7d,
      \"preFuncs\": [],
      \"preParams\": \x7b\x7d,
      \"postFuncs\": [],
      \"postParams\": \x7b\x7d
    \x7d,
    \x7b
      \"id\": \"w\",
      \"stepName\": \"Wait Time\",
      \"mainFuncName\": \"wait_time\",
      \"mainParams\": \x7b
        \"seconds\": 1
      \x7d,
      \"preFuncs\": [],
      \"preParams\": \x7b\x7d,
      \"postFuncs\": [],
      \"postParams\": \x7b\x7d
    \x7d
  ]
\x7d
"

set_option maxRecDepth 5000 in
theorem textOf_twiceDocument : textOf twiceDocument = twiceOutput := by
  rw [← String.toList_inj, toList_textOf, show twiceOutput = String.ofList _ by exact rfl,
    String.toList_ofList]
  exact eq_of_beq (by decide +kernel)

/-- A directory with nothing but a workspace. -/
def twiceDirectory : Directory := ⟨[(["w.json"], twiceText)]⟩

theorem writable_twiceDirectory : twiceDirectory.Writable "steps.json" := by
  intro content
  have hplace : twiceDirectory.find "steps.json" = .free ["steps.json"] := by decide +kernel
  rw [Directory.write?, hplace]
  rfl

/-- There the settings are those that need not be given, and the workspace is `twice`. -/
theorem documentFor_twice (flags : CompileFlags) {doc : Document} :
    documentFor ⟨none, "w.json", .compile flags⟩
        (twiceDirectory.around ⟨none, "w.json", .compile flags⟩ []) flags = .ok doc ↔
      ∃ opts, optionsOf {} flags = .ok opts ∧ twice.compile opts = .ok doc := by
  have hsettings : settingsOf ⟨none, "w.json", .compile flags⟩
      (twiceDirectory.around ⟨none, "w.json", .compile flags⟩ []) = .ok {} := by
    have hplace : twiceDirectory.find defaultConfig = .nowhere := by decide +kernel
    have hload : Settings.load none [] = .ok {} := by decide +kernel
    simp [settingsOf, Directory.around, Directory.configAt, hplace, hload]
  have htext : (twiceDirectory.around ⟨none, "w.json", .compile flags⟩ []).workspace.bind
      String.fromUTF8? = some twiceText := by
    have hplace : twiceDirectory.find "w.json" = .file ["w.json"] := by decide +kernel
    have hread : twiceDirectory.read? "w.json" = some twiceText := by
      rw [Directory.read?, hplace]
      simp [Directory.contentAt?, twiceDirectory]
    simp only [Directory.around, hread, Option.map_some, Option.bind_some]
    exact fromUTF8?_toUTF8 twiceText
  have hloaded : Workspace.ofText ({} : Settings).reading.order twiceText = .ok twice :=
    ofText_twiceText
  rw [documentFor_eq_ok_iff]
  constructor
  · rintro ⟨settings, opts, text, ws, hs, hopts, ht, hws, hdoc⟩
    cases hsettings.symm.trans hs
    cases htext.symm.trans ht
    cases hloaded.symm.trans hws
    exact ⟨opts, hopts, hdoc⟩
  · rintro ⟨opts, hopts, hdoc⟩
    exact ⟨{}, opts, twiceText, twice, hsettings, hopts, htext, hloaded, hdoc⟩

/-- A compilation that is done is delivered as the check says, in a file or on the standard output;
one step allowed is too few, and then the directory is as before. -/
theorem runs_agree_twice :
    let checked := twiceDirectory.perform ["check", "w.json"] []
    let compiled := twiceDirectory.perform ["compile", "w.json", "-o", "steps.json"] []
    let indexed :=
      twiceDirectory.perform ["compile", "w.json", "-o", "steps.json", "--indexed-ids"] []
    let printed := twiceDirectory.perform ["compile", "w.json"] []
    let limited :=
      twiceDirectory.perform ["compile", "w.json", "-o", "steps.json", "--max-steps", "1"] []
    twiceDirectory.Writable "steps.json" ∧
      compiled.code = 0 ∧ twiceDirectory.Delivered (some "steps.json") twiceDocument compiled ∧
      compiled.output = "" ∧ compiled.directory.contentAt? ["steps.json"] = some twiceOutput ∧
      twiceDocument.IsFinite ∧ (∃ text, twiceOutput = text ++ "\n" ∧ Presents text twiceDocument) ∧
      printed.output = twiceOutput ∧ printed.directory = twiceDirectory ∧
      checked.code = 0 ∧ checked.output = "✅ w.json compiles to 2 step(s)\n" ∧
      indexed.code = 0 ∧
      limited.code ≠ 0 ∧ limited.output = "" ∧ limited.directory = twiceDirectory := by
  let flags : CompileFlags := { output := some "steps.json" }
  let s : Surroundings := twiceDirectory.around ⟨none, "w.json", .check⟩ []
  have hwritable : ∀ path, flags.output = some path → twiceDirectory.Writable path := by
    intro path hpath
    cases hpath
    exact writable_twiceDirectory
  intro checked compiled indexed printed limited
  have hchecked : checked = twiceDirectory.settle (run ⟨none, "w.json", .check⟩ s) :=
    Directory.perform_eq (by decide +kernel)
  have hcompiled : compiled = twiceDirectory.settle (run ⟨none, "w.json", .compile flags⟩ s) :=
    Directory.perform_eq (by decide +kernel)
  have hindexed : indexed = twiceDirectory.settle
      (run ⟨none, "w.json", .compile { flags with indexedIds := true }⟩ s) :=
    Directory.perform_eq (by decide +kernel)
  have hprinted : printed = twiceDirectory.settle (run ⟨none, "w.json", .compile {}⟩ s) :=
    Directory.perform_eq (by decide +kernel)
  have hlimited : limited = twiceDirectory.settle
      (run ⟨none, "w.json", .compile { flags with maxSteps := some 1 }⟩ s) :=
    Directory.perform_eq (by decide +kernel)
  have hcompile : twice.compile ({} : Settings).options = .ok twiceDocument := by decide +kernel
  have hdoc := (documentFor_twice flags).mpr ⟨_, rfl, hcompile⟩
  have hfile : twiceDirectory.find "steps.json" = .free ["steps.json"] := by decide +kernel
  obtain ⟨hcode, hdone, -, hcheck, hindex, -⟩ :=
    runs_agree twiceDirectory s none "w.json" flags hwritable
  obtain ⟨hcode', -, hnothing, -⟩ :=
    runs_agree twiceDirectory s none "w.json" { flags with maxSteps := some 1 } hwritable
  obtain ⟨-, hshown, -⟩ := runs_agree twiceDirectory s none "w.json" {} nofun
  obtain ⟨⟨houtput, hdirectory⟩, -⟩ := hshown _ ((documentFor_twice {}).mpr ⟨_, rfl, hcompile⟩)
  obtain ⟨hdelivered, hpresents⟩ := hdone _ hdoc
  obtain ⟨hsilent, hwritten⟩ := hdelivered.of_free hfile
  rw [textOf_twiceDocument] at hpresents hwritten houtput
  rw [hchecked, hcompiled, hindexed, hprinted, hlimited]
  have hended := hcode.mpr ⟨_, hdoc⟩
  have hundone : (twiceDirectory.settle
      (run ⟨none, "w.json", .compile { flags with maxSteps := some 1 }⟩ s)).code ≠ 0 := by
    intro hzero
    obtain ⟨doc, hlimit⟩ := hcode'.mp hzero
    obtain ⟨opts, hopts, hcompile⟩ := (documentFor_twice _).mp hlimit
    cases hopts
    have hfails : twice.compile { ({} : Settings).options with maxSteps := 1 } =
        .error (.rejected (.stepLimitExceeded 1 "r")) := by decide +kernel
    cases hfails.symm.trans hcompile
  exact ⟨writable_twiceDirectory, hended, hdelivered, hsilent, hwritten, by decide +kernel,
    hpresents, houtput, hdirectory, (hcheck rfl).1.mpr hended, (hcheck rfl).2 _ hdoc,
    hindex.mpr hended, hundone, hnothing hundone⟩

end CommandLine

end BlockSteps
