import Mathlib
import BlockSteps.Proofs.Compile.Sources
import BlockSteps.Proofs.Workspace.Links

/-!
# The copies of an action

An action that stands in loops becomes several steps.  In a loaded workspace they can be told from
the steps of all other actions, because ids are not shared: they are the steps with its id
(`copiesOf`).  This file says which ones there are.

The steps that a loop block means are built from the inside: each loop puts the number of the turn
in front of the paths of steps that were copied already.  That the result is `paths`, the tuples of
the loops from the outermost to the innermost in lexicographic order, is an induction over the
chain that goes into bodies (`iterations_of_chainMeans`).  What comes before or behind the action in
any of the chains around it contributes no step with its id: the rest of a chain, the body of a loop
and the other chains of the program are listed apart from each other (`own_disjoint`,
`iterations_of_headMeans`).

**Main statement.**  `copies_of_compile`: in a compiled program, an action inside loops with
`n₁, …, nₖ` turns is the source of `n₁ * … * nₖ` steps, one for each path, in lexicographic order;
and no two steps share their source and their path.
-/

namespace BlockSteps

namespace Workspace.Lists

variable {ws : Workspace} {forest : List Tree} {hooks : HookTable} {t : Tree} {b c : Block}

/-! ## Ids of what a chain holds -/

mutual

theorem id_mem_own_of_blockHolds (h : ws.Lists forest) {t : Tree} {b c : Block}
    {trips : List Nat} (ht : t ∈ forest.flatMap Tree.listing) (hload : t.Loads b) :
    ws.BlockHolds b trips c → c.id ∈ t.own.map Tree.id
  | .self _ => by
    rw [hload.id_eq]
    exact List.mem_map_of_mem (List.mem_append_right _ (List.mem_singleton_self t))
  | .body _ hbody hhead _ hholds => by
    obtain ⟨u, hu, hmem, hhead⟩ := h.exists_body ht hload hbody hhead
    have hid := id_mem_listing_of_chainHolds h hmem hhead hholds
    have hsubset : u.listing ⊆ t.own := fun v hv =>
      List.mem_append_left _ (List.mem_flatMap.mpr ⟨_, hu, hv⟩)
    exact List.map_subset Tree.id hsubset hid

/-- What a chain holds comes from the listing of its first tree. -/
theorem id_mem_listing_of_chainHolds (h : ws.Lists forest) {t : Tree} {b c : Block}
    {trips : List Nat} (ht : t ∈ forest.flatMap Tree.listing) (hload : t.Loads b) :
    ws.ChainHolds b trips c → c.id ∈ t.listing.map Tree.id
  | .first hholds => by
    have hid := id_mem_own_of_blockHolds h ht hload hholds
    rw [t.listing_eq_own, List.map_append]
    exact List.mem_append_left _ hid
  | .later hnext hfound hholds => by
    obtain ⟨u, hu, hmem, hnext⟩ := h.exists_next ht hload hnext hfound
    have hid := id_mem_listing_of_chainHolds h hmem hnext hholds
    have hchild : u ∈ t.children := List.mem_append_right _ (Option.mem_toList.mpr hu)
    exact List.map_subset Tree.id (Tree.listing_subset_of_mem_children hchild) hid

end

theorem id_mem_own_of_blockMeans (h : ws.Lists forest) (ht : t ∈ forest.flatMap Tree.listing)
    (hload : t.Loads b) {steps : List Step} (hmeans : ws.BlockMeans hooks b steps) :
    ∀ s ∈ steps, s.id ∈ t.own.map Tree.id := by
  intro s hs
  obtain ⟨trips, c, hholds, hmakes, -⟩ := exists_source_of_blockMeans hmeans s hs
  rw [hmakes.id_eq]
  exact h.id_mem_own_of_blockHolds ht hload hholds

theorem id_mem_listing_of_chainMeans (h : ws.Lists forest)
    (ht : t ∈ forest.flatMap Tree.listing) (hload : t.Loads b) {steps : List Step}
    (hmeans : ws.ChainMeans hooks b steps) : ∀ s ∈ steps, s.id ∈ t.listing.map Tree.id := by
  intro s hs
  obtain ⟨trips, c, hholds, hmakes, -⟩ := exists_source_of_chainMeans hmeans s hs
  rw [hmakes.id_eq]
  exact h.id_mem_listing_of_chainHolds ht hload hholds

end Workspace.Lists

/-! ## Steps with one id -/

/-- The steps that come from the block with the id. -/
def copiesOf (id : BlockId) (steps : List Step) : List Step := steps.filter fun s => s.id = id

/-- The iteration paths of the steps that come from the block with the id. -/
def iterationsOf (id : BlockId) (steps : List Step) : List (List Nat) :=
  (copiesOf id steps).map Step.iteration

theorem iterationsOf_append (id : BlockId) (xs ys : List Step) :
    iterationsOf id (xs ++ ys) = iterationsOf id xs ++ iterationsOf id ys := by
  simp [iterationsOf, copiesOf]

theorem iterationsOf_cons (id : BlockId) (s : Step) (rest : List Step) :
    iterationsOf id (s :: rest) = iterationsOf id [s] ++ iterationsOf id rest :=
  iterationsOf_append id [s] rest

theorem iterationsOf_eq_nil {id : BlockId} {steps : List Step} (h : ∀ s ∈ steps, s.id ≠ id) :
    iterationsOf id steps = [] := by
  simpa [iterationsOf, copiesOf] using h

/-- The turns of a loop put their numbers in front of the paths. -/
theorem iterationsOf_turns (id : BlockId) (n : Nat) (body : List Step) :
    iterationsOf id ((List.range n).flatMap fun i =>
        body.map fun s => { s with iteration := i :: s.iteration }) =
      (List.range n).flatMap fun i => (iterationsOf id body).map (i :: ·) := by
  simp [iterationsOf, copiesOf, List.filter_flatMap, List.map_flatMap, List.filter_map,
    Function.comp_def]

namespace Workspace.Lists

variable {ws : Workspace} {forest : List Tree} {hooks : HookTable}

mutual

theorem iterations_of_blockMeans (h : ws.Lists forest) {t : Tree} {b c : Block} {a : Action}
    {trips : List Nat} {steps : List Step} (ht : t ∈ forest.flatMap Tree.listing)
    (hload : t.Loads b) (hc : c.kind = .ok (.action a)) :
    ws.BlockMeans hooks b steps → ws.BlockHolds b trips c → iterationsOf c.id steps = paths trips
  | .action hkind hstep, hholds => by
    cases hholds with
    | self =>
      obtain ⟨params, -, rfl⟩ := Action.step_eq_ok_iff.mp hstep
      simp [iterationsOf, copiesOf, paths, Action.bare_eq]
    | body hkind' => cases kind_unique hkind hkind'
  | .value hkind, hholds => by
    cases hholds with
    | self => cases kind_unique hkind hc
    | body hkind' => cases kind_unique hkind hkind'
  | .noBody hkind hbody, hholds => by
    cases hholds with
    | self => cases kind_unique hkind hc
    | body _ hbody' => cases hbody.symm.trans hbody'
  | .notRun hkind hcount hturns, hholds => by
    cases hholds with
    | self => cases kind_unique hkind hc
    | body hkind' _ _ hcount' =>
      cases kind_unique hkind hkind'
      cases hcount.symm.trans hcount'
      rw [Nat.lt_one_iff.mp hturns]
      rfl
  | .run hkind hbody hhead hcount _ hmeans, hholds => by
    cases hholds with
    | self => cases kind_unique hkind hc
    | body hkind' hbody' hhead' hcount' hholds =>
      cases kind_unique hkind hkind'
      cases hcount.symm.trans hcount'
      cases hbody.symm.trans hbody'
      obtain rfl := Option.some.inj (hhead.symm.trans hhead')
      obtain ⟨u, -, hmem, hload⟩ := h.exists_body ht hload hbody hhead
      rw [iterationsOf_turns, iterations_of_chainMeans h hmem hload hc hmeans hholds]
      rfl

/-- The paths of the copies of an action that a chain holds.  It stands either in the first block of
the chain or behind it, and in each case the other part has no step with its id. -/
theorem iterations_of_chainMeans (h : ws.Lists forest) {t : Tree} {b c : Block} {a : Action}
    {trips : List Nat} {steps : List Step} (ht : t ∈ forest.flatMap Tree.listing)
    (hload : t.Loads b) (hc : c.kind = .ok (.action a)) :
    ws.ChainMeans hooks b steps → ws.ChainHolds b trips c → iterationsOf c.id steps = paths trips
  | .last hblock hnext, hholds => by
    cases hholds with
    | first hholds => exact iterations_of_blockMeans h ht hload hc hblock hholds
    | later hnext' => cases hnext.symm.trans hnext'
  | .link hblock hnext hfound hrest, hholds => by
    obtain ⟨u, hu, hmem, hnextLoads⟩ := h.exists_next ht hload hnext hfound
    rw [iterationsOf_append]
    cases hholds with
    | first hholds =>
      have hown := h.id_mem_own_of_blockHolds ht hload hholds
      have hnone : iterationsOf c.id _ = [] := iterationsOf_eq_nil fun s hs hid =>
        h.own_disjoint ht hu hown (hid ▸ h.id_mem_listing_of_chainMeans hmem hnextLoads hrest s hs)
      rw [iterations_of_blockMeans h ht hload hc hblock hholds, hnone, List.append_nil]
    | later hnext' hfound' hholds =>
      cases hnext.symm.trans hnext'
      obtain rfl := Option.some.inj (hfound.symm.trans hfound')
      have hrestId := h.id_mem_listing_of_chainHolds hmem hnextLoads hholds
      have hnone : iterationsOf c.id _ = [] := iterationsOf_eq_nil fun s hs hid =>
        h.own_disjoint ht hu (hid ▸ h.id_mem_own_of_blockMeans ht hload hblock s hs) hrestId
      rw [iterations_of_chainMeans h hmem hnextLoads hc hrest hholds, hnone, List.nil_append]

end

/-! ## Whole programs -/

theorem id_mem_of_headMeans (h : ws.Lists forest) {roots : List Tree}
    (hroots : roots ⊆ forest.flatMap Tree.listing) {chains : List (List Step)}
    (hchains : List.Forall₂ (ws.HeadMeans hooks) (roots.map Tree.id) chains) :
    ∀ s ∈ chains.flatten, s.id ∈ (roots.flatMap Tree.listing).map Tree.id := by
  intro s hs
  obtain ⟨chain, hchain, hs⟩ := List.mem_flatten.mp hs
  obtain ⟨id, hid, head, hfound, hmeans⟩ := exists_of_forall₂ hchains hchain
  obtain ⟨t, ht, rfl⟩ := List.mem_map.mp hid
  have hload := h.loads_of_find? (hroots ht) hfound
  have hmem := h.id_mem_listing_of_chainMeans (hroots ht) hload hmeans s hs
  exact List.map_subset Tree.id (sublist_flatMap_of_mem Tree.listing ht).subset hmem

/-- The paths of the copies of an action in a list of chains.  The chains before and behind the one
that holds the action have no step with its id. -/
theorem iterations_of_headMeans (h : ws.Lists forest) {c : Block} {a : Action}
    (hc : c.kind = .ok (.action a)) {trips : List Nat} {roots : List Tree}
    (hroots : roots ⊆ forest.flatMap Tree.listing)
    (hnodup : ((roots.flatMap Tree.listing).map Tree.id).Nodup) {chains : List (List Step)}
    (hchains : List.Forall₂ (ws.HeadMeans hooks) (roots.map Tree.id) chains) {t : Tree}
    (ht : t ∈ roots) {head : Block} (hfound : ws.find? t.id = some head)
    (hholds : ws.ChainHolds head trips c) : iterationsOf c.id chains.flatten = paths trips := by
  induction roots generalizing chains with
  | nil => exact absurd ht List.not_mem_nil
  | cons root rest ih =>
    obtain ⟨chain, more, ⟨first, hfirst, hmeans⟩, hmore, rfl⟩ :=
      List.forall₂_cons_left_iff.mp hchains
    obtain ⟨hroot, hrest⟩ := List.cons_subset.mp hroots
    have hload := h.loads_of_find? hroot hfirst
    -- The first tree and the others share no id, and so neither do the steps of their chains.
    rw [List.flatMap_cons, List.map_append] at hnodup
    obtain ⟨-, hnodup, hdisjoint⟩ := List.nodup_append.mp hnodup
    rw [List.flatten_cons, iterationsOf_append]
    rcases List.mem_cons.mp ht with rfl | ht
    · obtain rfl := Option.some.inj (hfound.symm.trans hfirst)
      have hid := h.id_mem_listing_of_chainHolds hroot hload hholds
      have hnone : iterationsOf c.id more.flatten = [] := iterationsOf_eq_nil fun s hs hs' =>
        hdisjoint c.id hid s.id (h.id_mem_of_headMeans hrest hmore s hs) hs'.symm
      rw [h.iterations_of_chainMeans hroot hload hc hmeans hholds, hnone, List.append_nil]
    · have hid := h.id_mem_listing_of_chainHolds (hrest ht) (h.loads_of_find? (hrest ht) hfound)
        hholds
      have hmem := List.map_subset Tree.id (sublist_flatMap_of_mem Tree.listing ht).subset hid
      have hnone : iterationsOf c.id chain = [] := iterationsOf_eq_nil fun s hs =>
        hdisjoint s.id (h.id_mem_listing_of_chainMeans hroot hload hmeans s hs) c.id hmem
      rw [hnone, List.nil_append]
      exact ih hrest hnodup hmore ht

variable {chains : List (List Step)}

/-- In the program of a loaded workspace the copies of an action have the paths of its loops. -/
theorem iterations_of_program (h : ws.Lists forest)
    (hchains : List.Forall₂ (ws.HeadMeans hooks) ws.topIds chains) {top : BlockId}
    (htop : top ∈ ws.topIds) {head c : Block} (hfound : ws.find? top = some head)
    {trips : List Nat} (hholds : ws.ChainHolds head trips c) {a : Action}
    (hc : c.kind = .ok (.action a)) : iterationsOf c.id chains.flatten = paths trips := by
  rw [h.topIds_eq] at hchains htop
  obtain ⟨t, ht, rfl⟩ := List.mem_map.mp htop
  have hnodup := ws.nodup_ids
  rw [h.ids_eq] at hnodup
  exact h.iterations_of_headMeans hc (roots_sublist_listing forest).subset hnodup hchains ht
    hfound hholds

end Workspace.Lists

/-- The steps with the id of a block of the program are made from it. -/
theorem Workspace.makes_of_id {ws : Workspace} {hooks : HookTable} {heads : List BlockId}
    {chains : List (List Step)} (hchains : List.Forall₂ (ws.HeadMeans hooks) heads chains)
    {b : Block} (hb : b ∈ ws.blocks) :
    ∀ s ∈ chains.flatten, s.id = b.id → ws.Makes hooks b s := by
  intro s hs hid
  obtain ⟨c, hc, hmakes⟩ := exists_makes_of_program hchains s hs
  obtain rfl : c = b := block_unique hc hb (hmakes.id_eq.symm.trans hid)
  exact hmakes

/-- If the copies of each block have different paths, then no two steps share both. -/
theorem nodup_id_iteration {steps : List Step}
    (h : ∀ s ∈ steps, (iterationsOf s.id steps).Nodup) :
    (steps.map fun s => (s.id, s.iteration)).Nodup := by
  induction steps with
  | nil => exact List.nodup_nil
  | cons s rest ih =>
    rw [List.forall_mem_cons] at h
    obtain ⟨hs, hrest⟩ := h
    rw [List.map_cons, List.nodup_cons]
    constructor
    · intro hmem
      obtain ⟨t, ht, heq⟩ := List.mem_map.mp hmem
      obtain ⟨hid, hpath⟩ := Prod.mk.inj heq
      have hmem : s.iteration ∈ iterationsOf s.id rest := by
        rw [← hpath]
        exact List.mem_map_of_mem (List.mem_filter.mpr ⟨ht, by simpa using hid⟩)
      have hself : s.iteration ∈ iterationsOf s.id [s] := by simp [iterationsOf, copiesOf]
      rw [iterationsOf_cons] at hs
      exact (List.nodup_append.mp hs).2.2 _ hself _ hmem rfl
    · refine ih fun t ht => ?_
      have hnodup := hrest t ht
      rw [iterationsOf_cons] at hnodup
      exact (List.nodup_append.mp hnodup).2.1

namespace Workspace

variable {ws : Workspace}

/-- No two steps of the program of a loaded workspace share their source and their path. -/
theorem Lists.nodup_of_program {forest : List Tree} {hooks : HookTable}
    {chains : List (List Step)} (h : ws.Lists forest)
    (hchains : List.Forall₂ (ws.HeadMeans hooks) ws.topIds chains) :
    (chains.flatten.map fun s => (s.id, s.iteration)).Nodup := by
  refine nodup_id_iteration fun s hs => ?_
  obtain ⟨top, htop, head, trips, b, hfound, hholds, hmakes, -⟩ :=
    exists_source_of_program hchains s hs
  rw [hmakes.id_eq]
  obtain ⟨a, -, hkind, -, -⟩ := hmakes
  rw [h.iterations_of_program hchains htop hfound hholds hkind]
  exact (pairwise_paths trips).imp fun hlt => ne_of_lt hlt

/-- The steps with the id of the block are its copies in loops that are run as often as listed, the
outermost first. -/
structure CopiedIn (ws : Workspace) (hooks : HookTable) (steps : List Step) (b : Block)
    (trips : List Nat) : Prop where
  /-- There are as many as the turns multiply to. -/
  count : (copiesOf b.id steps).length = trips.prod
  /-- Their paths are the choices of one turn in each loop. -/
  path : ∀ path, path ∈ iterationsOf b.id steps ↔ List.Forall₂ (· < ·) path trips
  /-- The paths increase lexicographically, and so no path occurs twice. -/
  increasing : (iterationsOf b.id steps).Pairwise (· < ·)
  /-- But for its path, each is what the block is made into. -/
  made : ∀ s ∈ copiesOf b.id steps, ws.Makes hooks b s

/-- **An action is copied once for each choice of turns.**  In a compiled program, an action that is
reached from a top block inside loops with given numbers of turns is the source of one step for each
path, and the paths come in lexicographic order.  Every step of the program is a copy of such an
action, and no two steps share their source and their path.  The steps spoken of are those of the
program before ids are written; the document is the same steps with their ids written. -/
theorem copies_of_compile {order : TopOrder} {text : String} {opts : Options} {doc : Document}
    (h : ofText order text = .ok ws) (hdoc : ws.compile opts = .ok doc) :
    ∃ steps, (ws.chains opts 0 ws.topIds).outcome = .ok steps ∧
      doc = Document.assemble opts.ids steps ∧
      (∀ top ∈ ws.topIds, ∀ head, ws.find? top = some head → ∀ trips b a,
        ws.ChainHolds head trips b → b.kind = .ok (.action a) →
          ws.CopiedIn opts.hooks steps b trips) ∧
      (∀ s ∈ steps, ∃ top ∈ ws.topIds, ∃ head trips b, ws.find? top = some head ∧
        ws.ChainHolds head trips b ∧ ws.Makes opts.hooks b s ∧ s.iteration ∈ paths trips) ∧
      (steps.map fun s => (s.id, s.iteration)).Nodup := by
  obtain ⟨blocks, -, hlists⟩ := lists_of_ofText h
  obtain ⟨steps, hsteps, rfl⟩ := compileFrom_eq_ok hdoc
  obtain ⟨chains, hchains, rfl⟩ := headMeans_of_chainsOutcome hsteps
  refine ⟨chains.flatten, ?_, rfl, ?_, exists_source_of_program hchains,
    hlists.nodup_of_program hchains⟩
  · rw [outcome_chains]
    exact hsteps
  · intro top htop head hfound trips b a hholds hkind
    have hpaths := hlists.iterations_of_program hchains htop hfound hholds hkind
    refine ⟨?_, ?_, ?_, ?_⟩
    · rw [← List.length_map, ← length_paths, ← hpaths]
      rfl
    · intro path
      rw [hpaths, mem_paths]
    · rw [hpaths]
      exact pairwise_paths trips
    · intro s hs
      obtain ⟨hs, hid⟩ := List.mem_filter.mp hs
      exact makes_of_id hchains (hholds.mem (mem_of_find? hfound)) s hs (by simpa using hid)

/-- The document of `twoChains` with numbered copies. -/
def twoChainsDocument : Document :=
  let waits : List Step := [[0], [1], [2]].map fun path =>
    { id := "w#" ++ Step.dotted path, stepName := "Wait Time", mainFunc := "wait_time",
      mainParams := .ofList [("seconds", .number 1)], iteration := path }
  let picture : Step :=
    { id := "f", stepName := "Acquire Frame", mainFunc := "acquire_frame",
      mainParams := .ofList [("channel", .text "Mono")] }
  ⟨waits ++ [picture]⟩

theorem copies_of_compile_twoChains :
    ofText .asListed twoChainsText = .ok twoChains ∧
      twoChains.compile { ids := .indexed } = .ok twoChainsDocument ∧
      ∃ steps, (twoChains.chains { ids := .indexed } 0 twoChains.topIds).outcome = .ok steps ∧
        twoChainsDocument = Document.assemble .indexed steps ∧
        (∀ top ∈ twoChains.topIds, ∀ head, twoChains.find? top = some head → ∀ trips b a,
          twoChains.ChainHolds head trips b → b.kind = .ok (.action a) →
            twoChains.CopiedIn {} steps b trips) ∧
        (∀ s ∈ steps, ∃ top ∈ twoChains.topIds, ∃ head trips b,
          twoChains.find? top = some head ∧ twoChains.ChainHolds head trips b ∧
            twoChains.Makes {} b s ∧ s.iteration ∈ paths trips) ∧
        (steps.map fun s => (s.id, s.iteration)).Nodup :=
  have hdoc : twoChains.compile { ids := .indexed } = .ok twoChainsDocument := by decide +kernel
  ⟨ofText_twoChainsText, hdoc, copies_of_compile ofText_twoChainsText hdoc⟩

end Workspace

end BlockSteps
