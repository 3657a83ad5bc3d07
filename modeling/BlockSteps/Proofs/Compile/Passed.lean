import Mathlib
import BlockSteps.Proofs.Compile.Pass

/-!
# Which blocks are passed

The rules of a pass say in which order blocks are come to.  This file says which blocks that are and
how often:

* what is passed along a chain is what followed links lead to (`WalkPass.mem_iff`), so in a program
  it is the visited blocks (`ProgramPass.mem_iff`);
* in a loaded workspace no block is passed twice (`Lists.nodup_ids_passed`).  A chain and the bodies
  in it are parts of the listing of its first tree, and no two trees of a listing share an id;
* the report on each block is in one piece (`ProgramPass.exists_piece`).

The first and the last hold in every workspace.
-/

namespace BlockSteps.Workspace

variable {ws : Workspace} {hooks : HookTable} {b c x : Block}
  {rest passed : List Block} {log : List Event}

/-! ## Followed links -/

theorem Runs.follows (h : ws.Runs b c) : ws.Follows b c := by
  obtain ⟨l, count, hkind, hbody, hcount, hturns⟩ := h
  exact .body hkind hbody hcount hturns

theorem Runs.headsBody (h : ws.Runs b c) : ws.HeadsBody b c := by
  obtain ⟨l, count, -, hbody, -⟩ := h
  exact hbody

/-- The first of the links on a way leads into the body or on along the chain. -/
theorem reaches_iff : Relation.ReflTransGen ws.Follows b x ↔
    x = b ∨ (∃ c, ws.Runs b c ∧ Relation.ReflTransGen ws.Follows c x) ∨
      ∃ c, ws.ComesNext b c ∧ Relation.ReflTransGen ws.Follows c x := by
  constructor
  · intro hx
    rcases hx.cases_head with rfl | ⟨c, hbc, hx⟩
    · exact .inl rfl
    · cases hbc with
      | next hnext => exact .inr (.inr ⟨c, hnext, hx⟩)
      | body hkind hbody hcount hturns =>
        exact .inr (.inl ⟨c, ⟨_, _, hkind, hbody, hcount, hturns⟩, hx⟩)
  · rintro (rfl | ⟨c, hruns, hx⟩ | ⟨c, hnext, hx⟩)
    · exact .refl
    · exact .head hruns.follows hx
    · exact .head (.next hnext) hx

/-! ## Which blocks are passed -/

mutual

/-- The blocks behind a block in its part of the chain are those of its body. -/
theorem BlockPass.mem_iff {b x : Block} {rest : List Block} {log : List Event} :
    ws.BlockPass hooks b rest log →
      (x ∈ rest ↔ ∃ c, ws.Runs b c ∧ Relation.ReflTransGen ws.Follows c x)
  | .action hkind | .value hkind => by
    refine ⟨nofun, ?_⟩
    rintro ⟨c, ⟨l, count, hloop, -⟩, -⟩
    cases kind_unique hkind hloop
  | .noBody _ hnone => by
    refine ⟨nofun, ?_⟩
    rintro ⟨c, ⟨l, count, -, ⟨id, hid, -⟩, -⟩, -⟩
    cases hnone.symm.trans hid
  | .notRun hkind hbody hcount hturns => by
    refine ⟨nofun, ?_⟩
    rintro ⟨c, ⟨l, count, hkind', -, hcount', hturns'⟩, -⟩
    cases kind_unique hkind hkind'
    cases hcount.symm.trans hcount'
    exact absurd hturns hturns'
  | .run hkind hbody hcount hturns _ hwalk => by
    rw [hwalk.mem_iff]
    constructor
    · exact fun hx => ⟨_, ⟨_, _, hkind, hbody, hcount, hturns⟩, hx⟩
    · rintro ⟨c, hruns, hx⟩
      rwa [← hbody.unique hruns.headsBody]

/-- Along a chain everything is passed that followed links lead to. -/
theorem WalkPass.mem_iff {b x : Block} {rest : List Block} {log : List Event} :
    ws.WalkPass hooks b rest log →
      (x ∈ b :: rest ↔ Relation.ReflTransGen ws.Follows b x)
  | .last hblock hnext => by
    rw [reaches_iff, List.mem_cons, hblock.mem_iff]
    refine or_congr_right (or_iff_left ?_).symm
    rintro ⟨c, ⟨id, hid, -⟩, -⟩
    cases hnext.symm.trans hid
  | .link hblock hnext hrest => by
    rw [reaches_iff, List.mem_cons, List.mem_append, hblock.mem_iff, hrest.mem_iff]
    refine or_congr_right (or_congr_right ⟨fun hx => ⟨_, hnext, hx⟩, ?_⟩)
    rintro ⟨c, hc, hx⟩
    rwa [ws.rightUnique_comesNext hnext hc]

end

/-- What comes later in the chain is passed later. -/
theorem WalkPass.mem_of_later (h : ws.WalkPass hooks b rest log)
    (hbx : Relation.TransGen ws.ComesNext b x) : x ∈ rest := by
  obtain ⟨c, hnext, hcx⟩ := Relation.TransGen.head'_iff.mp hbx
  cases h with
  | last _ hnone =>
    obtain ⟨id, hid, -⟩ := hnext
    cases hnone.symm.trans hid
  | link _ hnext' hrest =>
    obtain rfl := ws.rightUnique_comesNext hnext hnext'
    have hfollows : Relation.ReflTransGen ws.Follows c x :=
      Relation.ReflTransGen.mono (fun _ _ => Follows.next) _ _ hcx
    exact List.mem_append_right _ (hrest.mem_iff.mpr hfollows)

theorem ProgramPass.mem_iff {ids : List BlockId} (h : ws.ProgramPass hooks ids passed log) :
    x ∈ passed ↔ ∃ id ∈ ids, ∃ head, ws.find? id = some head ∧
      Relation.ReflTransGen ws.Follows head x := by
  induction h with
  | nil => simp
  | cons hfound _ hwalk _ ih =>
    rw [List.mem_append, hwalk.mem_iff, ih]
    simp [hfound]

/-! ## Every block is passed once -/

section Forest

variable {forest : List Tree}

mutual

/-- What is passed for a block is listed for its tree, up to the root. -/
theorem Lists.subperm_own (h : ws.Lists forest) {t : Tree} {b : Block} {rest : List Block}
    {log : List Event} (ht : t ∈ forest.flatMap Tree.listing) (hload : t.Loads b) :
    ws.BlockPass hooks b rest log →
      ((b :: rest).map Block.id).Subperm (t.own.map Tree.id)
  | .action _ | .value _ | .noBody _ _ | .notRun _ _ _ _ => by
    rw [List.map_singleton, List.singleton_subperm_iff, hload.id_eq]
    exact List.mem_map_of_mem (List.mem_append_right _ (List.mem_singleton_self t))
  | .run _ hbody _ _ _ hwalk => by
    obtain ⟨id, hid, hc⟩ := hbody
    obtain ⟨u, hu, hmem, hhead⟩ := h.exists_body ht hload hid hc
    have hsublist : u.listing.Sublist (t.inputs.flatMap fun p => p.2.listing) :=
      sublist_flatMap_of_mem (fun p : String × Tree => p.2.listing) hu
    have hinputs := (h.subperm_listing hmem hhead hwalk).trans (hsublist.map Tree.id).subperm
    have hroot : [b.id].Subperm ([t].map Tree.id) := by rw [hload.id_eq]; exact .refl _
    rw [Tree.own, List.map_append]
    exact List.perm_append_comm.subperm.trans (hinputs.append hroot)

/-- What is passed along a chain is listed for its first tree. -/
theorem Lists.subperm_listing (h : ws.Lists forest) {t : Tree} {b : Block} {rest : List Block}
    {log : List Event} (ht : t ∈ forest.flatMap Tree.listing) (hload : t.Loads b) :
    ws.WalkPass hooks b rest log →
      ((b :: rest).map Block.id).Subperm (t.listing.map Tree.id)
  | .last hblock _ => by
    have hown := h.subperm_own ht hload hblock
    rw [t.listing_eq_own, List.map_append]
    exact hown.trans (List.sublist_append_left _ _).subperm
  | .link hblock hnext hrest => by
    obtain ⟨id, hid, hc⟩ := hnext
    obtain ⟨u, hu, hmem, hhead⟩ := h.exists_next ht hload hid hc
    have hown := h.subperm_own ht hload hblock
    have hothers := h.subperm_listing hmem hhead hrest
    rw [t.listing_eq_own, hu, List.map_append, ← List.cons_append, List.map_append]
    simpa using hown.append hothers

end

theorem Lists.subperm_of_programPass (h : ws.Lists forest) {roots : List Tree}
    (hroots : roots ⊆ forest.flatMap Tree.listing)
    (hpass : ws.ProgramPass hooks (roots.map Tree.id) passed log) :
    (passed.map Block.id).Subperm ((roots.flatMap Tree.listing).map Tree.id) := by
  induction roots generalizing passed log with
  | nil =>
    cases hpass
    exact .refl _
  | cons root others ih =>
    obtain ⟨hroot, hothers⟩ := List.cons_subset.mp hroots
    cases hpass with
    | cons hfound _ hwalk hrest =>
      have hload := h.loads_of_find? hroot hfound
      rw [List.map_append, List.flatMap_cons, List.map_append]
      exact (h.subperm_listing hroot hload hwalk).append (ih hothers hrest)

/-- In a loaded workspace no block is passed twice. -/
theorem Lists.nodup_ids_passed (h : ws.Lists forest)
    (hpass : ws.ProgramPass hooks ws.topIds passed log) : (passed.map Block.id).Nodup := by
  rw [h.topIds_eq] at hpass
  have hsubperm := h.subperm_of_programPass (roots_sublist_listing forest).subset hpass
  rw [← h.ids_eq] at hsubperm
  obtain ⟨ids, hperm, hsublist⟩ := hsubperm
  exact hperm.nodup_iff.mp (ws.nodup_ids.sublist hsublist)

end Forest

/-! ## Pieces of a pass -/

mutual

/-- Whatever is passed in a body has its part of the report in one piece. -/
theorem BlockPass.exists_piece {b x : Block} {rest : List Block} {log : List Event} :
    ws.BlockPass hooks b rest log → x ∈ rest →
      ∃ rest' log', ws.WalkPass hooks x rest' log' ∧ x :: rest' <:+: rest ∧ log' <:+: log
  | .action _, hx | .value _, hx | .noBody _ _, hx | .notRun _ _ _ _, hx =>
    absurd hx List.not_mem_nil
  | .run _ _ _ _ _ hwalk, hx => by
    obtain ⟨rest', log', hx, hrest, hlog⟩ := hwalk.exists_piece hx
    exact ⟨rest', log', hx, hrest, hlog.trans (List.prefix_append ..).isInfix⟩

/-- Whatever is passed along a chain has its part of the report in one piece. -/
theorem WalkPass.exists_piece {b x : Block} {rest : List Block} {log : List Event} :
    ws.WalkPass hooks b rest log → x ∈ b :: rest →
      ∃ rest' log', ws.WalkPass hooks x rest' log' ∧ x :: rest' <:+: b :: rest ∧ log' <:+: log
  | .last hblock hnext, hx => by
    rcases List.mem_cons.mp hx with rfl | hx
    · exact ⟨_, _, .last hblock hnext, List.infix_rfl, List.infix_rfl⟩
    · obtain ⟨rest', log', hx, hrest, hlog⟩ := hblock.exists_piece hx
      exact ⟨rest', log', hx, List.infix_cons hrest, hlog⟩
  | .link hblock hnext hwalk, hx => by
    rcases List.mem_cons.mp hx with rfl | hx
    · exact ⟨_, _, .link hblock hnext hwalk, List.infix_rfl, List.infix_rfl⟩
    · rcases List.mem_append.mp hx with hx | hx
      · obtain ⟨rest', log', hx, hrest, hlog⟩ := hblock.exists_piece hx
        exact ⟨rest', log', hx, List.infix_cons (hrest.trans (List.prefix_append ..).isInfix),
          hlog.trans (List.prefix_append ..).isInfix⟩
      · obtain ⟨rest', log', hx, hrest, hlog⟩ := hwalk.exists_piece hx
        exact ⟨rest', log', hx, List.infix_cons (hrest.trans (List.suffix_append ..).isInfix),
          hlog.trans (List.suffix_append ..).isInfix⟩

end

theorem ProgramPass.exists_piece {ids : List BlockId} (h : ws.ProgramPass hooks ids passed log)
    (hx : x ∈ passed) :
    ∃ rest log', ws.WalkPass hooks x rest log' ∧ x :: rest <:+: passed ∧ log' <:+: log := by
  induction h with
  | nil => exact absurd hx List.not_mem_nil
  | cons _ _ hwalk _ ih =>
    rcases List.mem_append.mp hx with hx | hx
    · obtain ⟨rest, log', hx, hrest, hlog⟩ := hwalk.exists_piece hx
      exact ⟨rest, log', hx, hrest.trans (List.prefix_append ..).isInfix,
        hlog.trans (List.prefix_append ..).isInfix⟩
    · obtain ⟨rest, log', hx, hrest, hlog⟩ := ih hx
      exact ⟨rest, log', hx, hrest.trans (List.suffix_append ..).isInfix,
        (List.infix_cons hlog).trans (List.suffix_append ..).isInfix⟩

/-- A walk begins with the report on its first block. -/
theorem WalkPass.exists_block (h : ws.WalkPass hooks b rest log) :
    ∃ rest' log', ws.BlockPass hooks b rest' log' ∧ log' <+: log := by
  cases h with
  | last hblock _ => exact ⟨_, _, hblock, List.prefix_rfl⟩
  | link hblock _ _ => exact ⟨_, _, hblock, List.prefix_append ..⟩

end BlockSteps.Workspace
