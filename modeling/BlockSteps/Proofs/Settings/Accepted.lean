import Mathlib
import BlockSteps.Settings.Basic
import BlockSteps.Proofs.Compile.Dressing

/-!
# What accepted settings are safe for

Settings are accepted before anything is done with them, and two later stages rely on it.  Reports
are set up from the words for level and form, and every step of a document gets the hooks of the
table.  The stages do not ask the acceptance what it has checked: the words have a list of their own
where they are accepted and a meaning where reports are set up, and hooks are copied as they are.

**Two lists.**  A word is on the list exactly if it has a meaning (`contains_levelWords`,
`contains_formatWords`).  A word that stood in one place only would be accepted and then mean
nothing, or be refused although it means something.

**Words.**  A word is known if its *lower case* is.  Lower case is a matter of Unicode, of which
`Text.lowered` has the ASCII part only.  `Text.LowersTo` leaves open what becomes of all other
characters, but for the two facts that decide the matter: the Kelvin sign becomes a `k`, and every
other character beyond ASCII becomes something beyond ASCII.  As the words are ASCII and have no `k`
in them, there is nothing more to know (`lowersTo_iff`).

**Names.**  A step of a document stands for a block and has the functions of its bundle and no
others (`standsFor_of_compileFrom`), and in an accepted table no bundle has a blank one.

**Main statement.**  `safe_of_validate`.
-/

namespace BlockSteps

/-! ## Lower case -/

namespace Text

/-- The second text can be the lower case of the first. -/
inductive LowersTo : List Char → List Char → Prop where
  /-- Nothing stays nothing. -/
  | nil : LowersTo [] []
  /-- A capital of ASCII becomes small, the rest of ASCII stays as it is. -/
  | ascii {c : Char} {cs ds : List Char} (hc : c.toNat < 128) (h : LowersTo cs ds) :
      LowersTo (c :: cs) (c.toLower :: ds)
  /-- The Kelvin sign becomes a letter of ASCII. -/
  | kelvin {cs ds : List Char} (h : LowersTo cs ds) : LowersTo ('\u212a' :: cs) ('k' :: ds)
  /-- Any other character becomes one or more, not all of them of ASCII. -/
  | beyond {c : Char} {lower cs ds : List Char} (hc : 128 ≤ c.toNat) (hkelvin : c ≠ '\u212a')
      (hlower : ∃ d ∈ lower, 128 ≤ d.toNat) (h : LowersTo cs ds) : LowersTo (c :: cs) (lower ++ ds)

theorem toLower_eq_self {c : Char} (hc : 128 ≤ c.toNat) : c.toLower = c := by
  unfold Char.toLower
  refine dif_neg ?_
  rintro ⟨-, hle⟩
  have hle : c.toNat ≤ 90 := hle
  omega

/-- A word of ASCII without a `k` is the lower case of a text exactly if it is the text with the
capitals of ASCII made small. -/
theorem lowersTo_iff {word : String} (hword : ∀ d ∈ word.toList, d.toNat < 128 ∧ d ≠ 'k')
    (text : String) : LowersTo text.toList word.toList ↔ lowered text = word := by
  have hlowered : lowered text = word ↔ text.toList.map Char.toLower = word.toList := by
    rw [lowered, ← String.toList_inj, String.toList_ofList]
  rw [hlowered]
  generalize text.toList = cs
  generalize word.toList = ds at hword
  constructor
  · intro h
    induction h with
    | nil => rfl
    | ascii hc h ih =>
      rw [List.map_cons, ih fun d hd => hword d (List.mem_cons_of_mem _ hd)]
    | kelvin h ih => exact absurd rfl (hword 'k' List.mem_cons_self).2
    | beyond hc hkelvin hlower h ih =>
      obtain ⟨d, hd, hbeyond⟩ := hlower
      exact absurd (hword d (List.mem_append_left _ hd)).1 (by omega)
  · rintro rfl
    induction cs with
    | nil => exact .nil
    | cons c cs ih =>
      rw [List.map_cons, List.forall_mem_cons] at hword
      refine .ascii ?_ (ih hword.2)
      by_contra hc
      rw [toLower_eq_self (by omega)] at hword
      exact hc hword.1.1

end Text

/-! ## Words for levels and forms -/

/-- Where everything is found by its own word, a word finds what it belongs to and nothing else. -/
theorem find?_word_eq_some_iff {α : Type} {all : List α} {word : α → String}
    (hself : ∀ a, (all.find? fun b => word b == word a) = some a) {w : String} {a : α} :
    (all.find? fun b => word b == w) = some a ↔ word a = w := by
  constructor
  · intro h
    have := List.find?_some h
    exact beq_iff_eq.mp this
  · rintro rfl
    exact hself a

/-- A text names the level whose word is its lower case. -/
theorem Level.ofText?_eq_some_iff {text : String} {level : Level} :
    Level.ofText? text = some level ↔ Text.LowersTo text.toList level.word.toList := by
  have hself : ∀ l : Level, (all.find? fun b => b.word == l.word) = some l := by
    rintro ⟨⟩ <;> decide +kernel
  have hascii : ∀ d ∈ level.word.toList, d.toNat < 128 ∧ d ≠ 'k' := by
    cases level <;> simp [Level.word]
  rw [Text.lowersTo_iff hascii, ofText?, find?_word_eq_some_iff hself, eq_comm]

/-- A text names the form whose word is its lower case. -/
theorem LogFormat.ofText?_eq_some_iff {text : String} {format : LogFormat} :
    LogFormat.ofText? text = some format ↔ Text.LowersTo text.toList format.word.toList := by
  have hself : ∀ f : LogFormat, (all.find? fun b => b.word == f.word) = some f := by
    rintro ⟨⟩ <;> decide +kernel
  have hascii : ∀ d ∈ format.word.toList, d.toNat < 128 ∧ d ≠ 'k' := by
    cases format <;> simp [LogFormat.word]
  rw [Text.lowersTo_iff hascii, ofText?, find?_word_eq_some_iff hself, eq_comm]

/-- Something is found by a word exactly if this is one of all words. -/
theorem isSome_find?_word {α : Type} (all : List α) (word : α → String) (w : String) :
    (all.find? fun a => word a == w).isSome = (all.map word).contains w := by
  rw [List.isSome_find?, List.contains_eq_any_beq, List.any_map]
  congr 1
  funext a
  exact BEq.comm

/-- The words that are accepted for the level are those that name one. -/
theorem Settings.contains_levelWords (text : String) :
    levelWords.contains (Text.lowered text) = (Level.ofText? text).isSome :=
  (isSome_find?_word Level.all Level.word (Text.lowered text)).symm

/-- The words that are accepted for the form are those that name one. -/
theorem Settings.contains_formatWords (text : String) :
    formatWords.contains (Text.lowered text) = (LogFormat.ofText? text).isSome :=
  (isSome_find?_word LogFormat.all LogFormat.word (Text.lowered text)).symm

/-! ## Accepted settings -/

/-- The name has a character that is no blank. -/
def IsNamed (name : String) : Prop := ∃ c ∈ name.toList, Text.isBlank c = false

theorem isBlankText_eq_false_iff {name : String} :
    Text.isBlankText name = false ↔ IsNamed name := by
  rw [Text.isBlankText, List.all_eq_false]
  simp [IsNamed]

namespace Settings

/-- A hook table is accepted exactly if all functions are named, those of the bundles and those that
the bundles go with. -/
theorem validateHooks_eq_ok_iff {entries : List (String × Hooks)} :
    validateHooks entries = .ok () ↔
      ∀ p ∈ entries, IsNamed p.1 ∧ ∀ name ∈ p.2.pre ++ p.2.post, IsNamed name := by
  induction entries with
  | nil => simp [validateHooks]
  | cons p rest ih =>
    obtain ⟨function, h⟩ := p
    rw [List.forall_mem_cons, ← ih, validateHooks]
    simp only [← isBlankText_eq_false_iff]
    cases hfunction : Text.isBlankText function with
    | true => simp
    | false =>
      cases hblank : (h.pre ++ h.post).find? Text.isBlankText with
      | some name =>
        have hname : Text.isBlankText name = true := List.find?_some hblank
        have hmem := List.mem_of_find?_eq_some hblank
        rw [if_neg Bool.false_ne_true]
        refine ⟨nofun, fun hnamed => ?_⟩
        rw [hnamed.1.2 name hmem] at hname
        cases hname
      | none =>
        rw [List.find?_eq_none] at hblank
        rw [if_neg Bool.false_ne_true]
        refine ⟨fun hrest => ⟨⟨rfl, fun name hname => ?_⟩, hrest⟩, And.right⟩
        exact Bool.eq_false_iff.mpr (hblank name hname)

/-- What accepting settings looks at, in order. -/
theorem validate_eq (s : Settings) :
    s.validate =
      match Level.ofText? s.application.logLevel, LogFormat.ofText? s.application.logFormat with
      | none, _ => .error (.noLogLevel s.application.logLevel)
      | some _, none => .error (.noLogFormat s.application.logFormat)
      | some _, some _ =>
        if s.compilation.maxSteps = 0 then .error .noSteps else validateHooks s.hooks.entries := by
  unfold validate
  rw [contains_levelWords, contains_formatWords]
  cases Level.ofText? s.application.logLevel with
  | none => rfl
  | some level =>
    cases LogFormat.ofText? s.application.logFormat with
    | none => rfl
    | some format =>
      by_cases hsteps : s.compilation.maxSteps = 0
      · simp only [hsteps]
        rfl
      · simp only [hsteps]
        rfl

/-- What setting up reports looks at. -/
theorem logging_eq (s : Settings) :
    s.logging =
      match Level.ofText? s.application.logLevel, LogFormat.ofText? s.application.logFormat with
      | none, _ => .error (.noLevel s.application.logLevel)
      | some _, none => .error (.noFormat s.application.logFormat)
      | some level, some format => .ok ⟨level, format⟩ := by
  unfold logging Level.ofText LogFormat.ofText
  cases Level.ofText? s.application.logLevel with
  | none => rfl
  | some level =>
    cases LogFormat.ofText? s.application.logFormat with
    | none => rfl
    | some format => rfl

/-- Accepted words name a level and a form, and no others. -/
theorem logging_of_validate {s : Settings} (h : s.validate = .ok ()) :
    ∃ level format, s.logging = .ok ⟨level, format⟩ ∧
      (∀ l : Level, Text.LowersTo s.application.logLevel.toList l.word.toList ↔ l = level) ∧
      ∀ f : LogFormat,
        Text.LowersTo s.application.logFormat.toList f.word.toList ↔ f = format := by
  rw [validate_eq] at h
  simp only [← Level.ofText?_eq_some_iff, ← LogFormat.ofText?_eq_some_iff, logging_eq]
  cases hlevel : Level.ofText? s.application.logLevel with
  | none =>
    rw [hlevel] at h
    cases h
  | some level =>
    cases hformat : LogFormat.ofText? s.application.logFormat with
    | none =>
      rw [hlevel, hformat] at h
      cases h
    | some format =>
      refine ⟨level, format, rfl, fun l => ?_, fun f => ?_⟩
      · rw [Option.some.injEq, eq_comm]
      · rw [Option.some.injEq, eq_comm]

/-- A hook table is refused for a function without a name and for nothing else. -/
theorem refusal_of_validateHooks {entries : List (String × Hooks)} {r : Refusal}
    (h : validateHooks entries = .error r) :
    r = .unnamedFunction ∨ ∃ name function, r = .unnamedHook name function := by
  induction entries with
  | nil => cases h
  | cons p rest ih =>
    rw [validateHooks] at h
    split at h
    · exact .inl (Except.error.inj h).symm
    · split at h
      · exact .inr ⟨_, _, (Except.error.inj h).symm⟩
      · exact ih h

/-- Where reports can be set up, nothing is wrong with the words. -/
theorem ne_of_logging {s : Settings} {l : Logging} (h : s.logging = .ok l) {r : Refusal}
    (hr : s.validate = .error r) (word : String) :
    r ≠ .noLogLevel word ∧ r ≠ .noLogFormat word := by
  rw [logging_eq] at h
  rw [validate_eq] at hr
  cases hlevel : Level.ofText? s.application.logLevel with
  | none =>
    rw [hlevel] at h
    cases h
  | some level =>
    cases hformat : LogFormat.ofText? s.application.logFormat with
    | none =>
      rw [hlevel, hformat] at h
      cases h
    | some format =>
      rw [hlevel, hformat] at hr
      dsimp only at hr
      split at hr
      · obtain rfl := Except.error.inj hr
        exact ⟨nofun, nofun⟩
      · obtain rfl | ⟨name, function, rfl⟩ := refusal_of_validateHooks hr
        · exact ⟨nofun, nofun⟩
        · exact ⟨nofun, nofun⟩

/-- The functions of an accepted bundle are named. -/
theorem isNamed_of_validate {s : Settings} (h : s.validate = .ok ()) (function : String) :
    ∀ name ∈ (HookTable.bundle s.hooks function).pre ++ (HookTable.bundle s.hooks function).post,
      IsNamed name := by
  have hhooks : validateHooks s.hooks.entries = .ok () := by
    rw [validate_eq] at h
    split at h
    · cases h
    · cases h
    · split at h
      · cases h
      · exact h
  unfold HookTable.bundle
  cases hbundle : s.hooks.get? function with
  | none => exact nofun
  | some hooks =>
    exact (validateHooks_eq_ok_iff.mp hhooks _ (Dict.get?_eq_some_iff.mp hbundle)).2

/-- **What is accepted is safe later on.**  Accepted settings say which reports are shown and how,
namely by the one level and the one form that their words name, capital or small.  And no step of
any document that is compiled under them, of whatever blocks and from whatever heads, calls a
function before or after it whose name is empty or blank.  The other way round, settings that say
which reports are shown are not refused for the words in which they say it. -/
theorem safe_of_validate (s : Settings) :
    (s.validate = .ok () →
      (∃ level format, s.logging = .ok ⟨level, format⟩ ∧
        (∀ l : Level, Text.LowersTo s.application.logLevel.toList l.word.toList ↔ l = level) ∧
        ∀ f : LogFormat,
          Text.LowersTo s.application.logFormat.toList f.word.toList ↔ f = format) ∧
      ∀ (ws : Workspace) (heads : List BlockId) (doc : Document),
        ws.compileFrom heads s.options = .ok doc →
          ∀ step ∈ doc.steps, ∀ name ∈ step.preFuncs ++ step.postFuncs, IsNamed name) ∧
    ((∃ l, s.logging = .ok l) → ∀ r, s.validate = .error r →
      ∀ word, r ≠ .noLogLevel word ∧ r ≠ .noLogFormat word) := by
  refine ⟨fun h => ⟨logging_of_validate h, fun ws heads doc hdoc step hstep => ?_⟩,
    fun ⟨_, hl⟩ r hr => ne_of_logging hl hr⟩
  obtain ⟨b, -, hstands⟩ := Workspace.standsFor_of_compileFrom hdoc step hstep
  rw [hstands.preFuncs_eq, hstands.postFuncs_eq]
  exact isNamed_of_validate h step.mainFunc

/-- Settings in capitals, with hooks around every wait. -/
def capitals : Settings where
  application := { logLevel := "WARN", logFormat := "Compact" }
  hooks := .ofList [("wait_time", { pre := ["announce", "\u00a0log"], post := ["log"] })]

/-- Their words are known, and a wait that is compiled under them has the three functions. -/
theorem safe_of_validate_capitals :
    capitals.validate = .ok () ∧ capitals.logging = .ok ⟨.warn, .compact⟩ ∧
      (∃ doc, (Workspace.loneAction .waitTime).compile capitals.options = .ok doc ∧
        ∀ step ∈ doc.steps, ∀ name ∈ step.preFuncs ++ step.postFuncs, IsNamed name) ∧
      ∀ r, capitals.validate = .error r → ∀ word, r ≠ .noLogLevel word := by
  have hvalid : capitals.validate = .ok () := by decide +kernel
  have hlogging : capitals.logging = .ok ⟨.warn, .compact⟩ := by decide +kernel
  have hpos : 0 < capitals.options.maxSteps := maxSteps_pos_of_validate hvalid
  obtain ⟨doc, hdoc, -⟩ := Workspace.exists_compile_loneAction .waitTime hpos
  exact ⟨hvalid, hlogging, ⟨doc, hdoc, ((safe_of_validate capitals).1 hvalid).2 _ _ doc hdoc⟩,
    fun r hr word => ((safe_of_validate capitals).2 ⟨_, hlogging⟩ r hr word).1⟩

end Settings

end BlockSteps
