import Mathlib
import BlockSteps.Proofs.Compile.Copies
import BlockSteps.Proofs.Step.ReadIds

/-!
# Ids with paths

Where copies are numbered, the path of a step is written behind the id of its block, a mark between
them.  The text can be read again, as this block and this path (`Step.copyOf?_renderedId`).  Hence
copies of one block differ, and so do copies of different blocks.

**What the mark does not do.**  A step outside loops keeps the id of its block as it is, and an id
is any text.  So a block can have the very id under which a copy of another block is written
(`clashDocument`).  This is the only way in which two steps come to share an id.

**Main statement.**  `ids_of_compile_indexed`: in a document with numbered copies, two steps share
their id only if one of them is a copy and the other is outside all loops; and no two do, if no
block has the id of a block of the workspace with a path behind it.
-/

namespace BlockSteps

/-- Two steps with one id are a copy and a step outside all loops. -/
def ClashApart (s t : Step) : Prop := s.id = t.id → (s.iteration = [] ↔ t.iteration ≠ [])

/-- Written behind the ids, different paths keep steps of one source apart. -/
theorem pairwise_rendered {steps : List Step}
    (h : (steps.map fun s => (s.id, s.iteration)).Nodup) :
    (steps.map (Step.rendered .indexed)).Pairwise ClashApart := by
  rw [List.Nodup, List.pairwise_map] at h
  rw [List.pairwise_map]
  refine h.imp fun {s t} hne hid => ?_
  have hid : s.renderedId .indexed = t.renderedId .indexed := hid
  change s.iteration = [] ↔ t.iteration ≠ []
  by_cases hs : s.iteration = []
  · by_cases ht : t.iteration = []
    · rw [Step.renderedId_of_nil _ hs, Step.renderedId_of_nil _ ht] at hid
      exact absurd (Prod.ext hid (hs.trans ht.symm)) hne
    · exact iff_of_true hs ht
  · by_cases ht : t.iteration = []
    · exact iff_of_false hs (not_not_intro ht)
    · have hread := Step.copyOf?_renderedId hs
      rw [hid, Step.copyOf?_renderedId ht] at hread
      exact absurd (Option.some.inj hread).symm hne

/-- Where only copies and steps outside loops can share an id, it is enough that they do not. -/
theorem nodup_ids_iff {steps : List Step} (h : steps.Pairwise ClashApart) :
    (steps.map Step.id).Nodup ↔
      ∀ s ∈ steps, ∀ t ∈ steps, s.iteration = [] → t.iteration ≠ [] → s.id ≠ t.id := by
  constructor
  · intro hnodup s hs t ht hout hin hid
    obtain rfl := List.inj_on_of_nodup_map hnodup hs ht hid
    exact hin hout
  · intro hapart
    rw [List.Nodup, List.pairwise_map]
    refine List.Pairwise.imp_of_mem (fun {s t} hs ht hclash hid => ?_) h
    by_cases hout : s.iteration = []
    · exact hapart s hs t ht hout ((hclash hid).mp hout) hid
    · have hin : t.iteration = [] := not_not.mp fun ht => hout ((hclash hid).mpr ht)
      exact hapart t ht s hs hin hout hid.symm

namespace Workspace

variable {ws : Workspace}

/-- No block has the id of a block of the workspace with a path behind it. -/
def NoWrittenId (ws : Workspace) : Prop :=
  ∀ b ∈ ws.blocks, ∀ c ∈ ws.blocks, ∀ path ≠ [], b.id ≠ c.id ++ "#" ++ Step.dotted path

/-- **Numbered copies are told apart.**  In the document of a loaded workspace with numbered copies,
two steps that share their id are a copy and a step outside all loops.  So no two steps share their
id exactly if no copy has the id of a step outside all loops, and this is so if no block has the id
of a block with a path behind it. -/
theorem ids_of_compile_indexed {order : TopOrder} {text : String} {opts : Options}
    {doc : Document} (h : ofText order text = .ok ws) (hids : opts.ids = .indexed)
    (hdoc : ws.compile opts = .ok doc) :
    doc.steps.Pairwise ClashApart ∧
      ((doc.steps.map Step.id).Nodup ↔
        ∀ s ∈ doc.steps, ∀ t ∈ doc.steps, s.iteration = [] → t.iteration ≠ [] → s.id ≠ t.id) ∧
      (ws.NoWrittenId → (doc.steps.map Step.id).Nodup) := by
  obtain ⟨blocks, -, hlists⟩ := lists_of_ofText h
  obtain ⟨steps, hsteps, rfl⟩ := compileFrom_eq_ok hdoc
  obtain ⟨chains, hchains, rfl⟩ := headMeans_of_chainsOutcome hsteps
  rw [hids]
  have hclash := pairwise_rendered (hlists.nodup_of_program hchains)
  have hiff := nodup_ids_iff hclash
  refine ⟨hclash, hiff, fun hfree => hiff.mpr ?_⟩
  intro written hwritten other hother hout hin hid
  obtain ⟨s, hs, rfl⟩ := List.mem_map.mp hwritten
  obtain ⟨t, ht, rfl⟩ := List.mem_map.mp hother
  obtain ⟨b, hb, hsb⟩ := exists_makes_of_program hchains s hs
  obtain ⟨c, hc, htc⟩ := exists_makes_of_program hchains t ht
  have hout : s.iteration = [] := hout
  have hin : t.iteration ≠ [] := hin
  have hid : s.renderedId .indexed = t.renderedId .indexed := hid
  rw [Step.renderedId_of_nil _ hout, Step.renderedId_indexed hin, hsb.id_eq, htc.id_eq] at hid
  exact hfree b hb c hc t.iteration hin hid

theorem ids_of_compile_indexed_twoChains :
    ofText .asListed twoChainsText = .ok twoChains ∧
      twoChains.compile { ids := .indexed } = .ok twoChainsDocument ∧
      (twoChainsDocument.steps.map Step.id).Nodup := by
  have hdoc : twoChains.compile { ids := .indexed } = .ok twoChainsDocument := by decide +kernel
  refine ⟨ofText_twoChainsText, hdoc, ?_⟩
  obtain ⟨-, -, hnodup⟩ := ids_of_compile_indexed ofText_twoChainsText rfl hdoc
  have hmark : ∀ b ∈ twoChains.blocks, '#' ∉ b.id.toList := by decide
  refine hnodup fun b hb c _ path _ hid => hmark b hb ?_
  rw [hid]
  simp

/-- A loop that is run once around a wait, and another wait with the id of the copy. -/
def clashText : String := "\x7b\"blocks\": \x7b\"blocks\": [
  \x7b\"type\": \"controls_repeat\", \"id\": \"loop\", \"fields\": \x7b\"TIMES\": 1\x7d,
    \"inputs\": \x7b\"DO\": \x7b\"block\":
      \x7b\"type\": \"wait_time_block\", \"id\": \"w\"\x7d\x7d\x7d\x7d,
  \x7b\"type\": \"wait_time_block\", \"id\": \"w#0\"\x7d]\x7d\x7d"

/-- The blocks of `clashText`. -/
def clash : Workspace where
  blocks := #[
    { id := "w", type := "wait_time_block" },
    { id := "loop", type := "controls_repeat", fields := .ofList [("TIMES", .number 1)],
      statements := .ofList [("DO", "w")] },
    { id := "w#0", type := "wait_time_block" }]

/-- The document of `clash`: a copy of the first wait and the second wait. -/
def clashDocument : Document :=
  ⟨[[0], []].map fun path =>
    { id := "w#0", stepName := "Wait Time", mainFunc := "wait_time",
      mainParams := .ofList [("seconds", .number 1)], iteration := path }⟩

set_option maxRecDepth 5000 in
/-- Numbered copies do not make ids unique. -/
theorem not_nodup_clash :
    ofText .asListed clashText = .ok clash ∧
      clash.compile { ids := .indexed } = .ok clashDocument ∧
      ¬ (clashDocument.steps.map Step.id).Nodup := by
  refine ⟨?_, by decide +kernel, by decide⟩
  apply eq_ok_of_toOption
  rw [ofText, SavedBlock.ofText, Json.readFrom,
    Json.Draft.ofText_eq (show clashText = String.ofList _ by exact rfl)]
  decide +kernel

end Workspace

end BlockSteps
