import Mathlib
import BlockSteps.Proofs.Workspace.Insertion
import BlockSteps.Workspace.Loading

/-!
# What flattening inserts

`Tree.listing` is the order in which the blocks of a tree are inserted: each tree stands right after
the listings of its own inputs and before the listing of what comes next.  `Tree.Loads` says which
block one tree of the listing becomes, without a look at the trees attached to it.

**Main statement.**  `flattenAll_eq_ok_iff`: trees can be flattened exactly if every tree of their
listing can be loaded and the blocks so loaded can be inserted one after the other.

**References.**  The references of a loaded block are the ids of the trees attached to its tree
(`references_perm`), and every tree of a listing other than the root is attached to exactly one tree
of it (`listing_perm_attached`).
-/

namespace BlockSteps

/-! ## Trees attached to a tree -/

/-- The trees attached to a tree: those in its inputs, then the next one. -/
def Tree.children (t : Tree) : List Tree := t.inputs.map Prod.snd ++ t.next.toList

mutual

/-- What holds of a tree as soon as it holds of the trees attached to it holds of every tree. -/
theorem Tree.induction {P : Tree → Prop} (h : ∀ t : Tree, (∀ c ∈ t.children, P c) → P t) :
    ∀ t : Tree, P t
  | ⟨type, id, fields, inputs, next⟩ => by
    refine h ⟨type, id, fields, inputs, next⟩ fun c hc => ?_
    rcases List.mem_append.mp hc with hc | hc
    · obtain ⟨p, hp, rfl⟩ := List.mem_map.mp hc
      exact Tree.inductionInputs h inputs p hp
    · exact Tree.inductionNext h next c (Option.mem_toList.mp hc)

theorem Tree.inductionInputs {P : Tree → Prop} (h : ∀ t : Tree, (∀ c ∈ t.children, P c) → P t) :
    ∀ inputs : List (String × Tree), ∀ p ∈ inputs, P p.2
  | [], _, hp => absurd hp List.not_mem_nil
  | (_, t) :: rest, p, hp => by
    rcases List.mem_cons.mp hp with rfl | hp
    · exact Tree.induction h t
    · exact Tree.inductionInputs h rest p hp

theorem Tree.inductionNext {P : Tree → Prop} (h : ∀ t : Tree, (∀ c ∈ t.children, P c) → P t) :
    ∀ next : Option Tree, ∀ t ∈ next, P t
  | none, _, ht => absurd ht (Option.not_mem_none _)
  | some t, _, ht => by
    obtain rfl := Option.some.inj ht
    exact Tree.induction h t

end

/-! ## The listing -/

mutual

/-- The trees of a tree in the order in which their blocks are inserted. -/
def Tree.listing : Tree → List Tree
  | ⟨type, id, fields, inputs, next⟩ =>
    listingInputs inputs ++ ⟨type, id, fields, inputs, next⟩ :: listingNext next

/-- The listings of inputs, one behind the other. -/
def listingInputs : List (String × Tree) → List Tree
  | [] => []
  | (_, t) :: rest => t.listing ++ listingInputs rest

/-- The listing of the rest of a chain. -/
def listingNext : Option Tree → List Tree
  | none => []
  | some t => t.listing

end

theorem listingInputs_eq (inputs : List (String × Tree)) :
    listingInputs inputs = inputs.flatMap fun p => p.2.listing := by
  induction inputs with
  | nil => rfl
  | cons p rest ih => rw [listingInputs, ih, List.flatMap_cons]

theorem listingNext_eq (next : Option Tree) :
    listingNext next = next.toList.flatMap Tree.listing := by
  cases next with
  | none => rfl
  | some t => simp [listingNext]

/-- A tree stands right after the listings of its inputs. -/
theorem Tree.listing_eq (t : Tree) :
    t.listing =
      (t.inputs.flatMap fun p => p.2.listing) ++ t :: t.next.toList.flatMap Tree.listing := by
  obtain ⟨type, id, fields, inputs, next⟩ := t
  rw [Tree.listing, listingInputs_eq, listingNext_eq]

theorem Tree.self_mem_listing (t : Tree) : t ∈ t.listing := by
  rw [t.listing_eq]
  simp

theorem Tree.listing_subset_of_mem_children {t c : Tree} (h : c ∈ t.children) :
    c.listing ⊆ t.listing := by
  intro d hd
  rw [t.listing_eq]
  rcases List.mem_append.mp h with h | h
  · obtain ⟨p, hp, rfl⟩ := List.mem_map.mp h
    exact List.mem_append_left _ (List.mem_flatMap.mpr ⟨p, hp, hd⟩)
  · exact List.mem_append_right _ (List.mem_cons_of_mem _ (List.mem_flatMap.mpr ⟨c, h, hd⟩))

/-- Up to order a listing is the tree and the listings of the trees attached to it. -/
theorem Tree.listing_perm (t : Tree) : t.listing.Perm (t :: t.children.flatMap Tree.listing) := by
  have h : t.children.flatMap Tree.listing =
      (t.inputs.flatMap fun p => p.2.listing) ++ t.next.toList.flatMap Tree.listing := by
    rw [Tree.children, List.flatMap_append, List.flatMap_map]
  rw [t.listing_eq, h]
  exact List.perm_middle

theorem Tree.length_listing_lt {t c : Tree} (h : c ∈ t.children) :
    c.listing.length < t.listing.length := by
  have hlength := t.listing_perm.length_eq
  have hle : c.listing.length ≤ (t.children.flatMap Tree.listing).length := by
    rw [List.length_flatMap]
    exact List.le_sum_of_mem (List.mem_map_of_mem h)
  rw [List.length_cons] at hlength
  omega

/-- What is attached to a tree of the listing is in the listing. -/
theorem Tree.mem_listing_of_mem_children {t : Tree} :
    ∀ {u c : Tree}, u ∈ t.listing → c ∈ u.children → c ∈ t.listing := by
  induction t using Tree.induction with
  | h t ih =>
    intro u c hu hc
    rcases List.mem_cons.mp (t.listing_perm.mem_iff.mp hu) with rfl | hu
    · exact listing_subset_of_mem_children hc c.self_mem_listing
    · obtain ⟨d, hd, hu⟩ := List.mem_flatMap.mp hu
      exact listing_subset_of_mem_children hd (ih d hd hu hc)

/-- Up to order a listing is the tree and all that is attached to any tree of the listing. -/
theorem Tree.listing_perm_attached (t : Tree) :
    t.listing.Perm (t :: t.listing.flatMap Tree.children) := by
  induction t using Tree.induction with
  | h t ih =>
    have hsplit : ∀ cs : List Tree,
        (cs.flatMap fun c => c :: c.listing.flatMap Tree.children).Perm
          (cs ++ (cs.flatMap Tree.listing).flatMap Tree.children) := by
      intro cs
      induction cs with
      | nil => exact .refl _
      | cons c cs ih =>
        simp only [List.flatMap_cons, List.flatMap_append, List.cons_append]
        exact .cons c ((ih.append_left _).trans (List.perm_append_comm_assoc _ _ _))
    calc t.listing
      _ |>.Perm (t :: t.children.flatMap Tree.listing) := t.listing_perm
      _ |>.Perm (t :: t.children.flatMap fun c => c :: c.listing.flatMap Tree.children) :=
        .cons t (List.Perm.flatMap_left _ ih)
      _ |>.Perm (t :: (t.children ++ (t.children.flatMap Tree.listing).flatMap Tree.children)) :=
        .cons t (hsplit t.children)
      _ |>.Perm (t :: t.listing.flatMap Tree.children) := by
        refine .cons t ?_
        rw [← List.flatMap_cons]
        exact (t.listing_perm.flatMap_right _).symm

/-- Up to order the listing of a forest is its roots and all that is attached to any tree. -/
theorem listing_perm_roots (forest : List Tree) :
    (forest.flatMap Tree.listing).Perm
      (forest ++ (forest.flatMap Tree.listing).flatMap Tree.children) := by
  induction forest with
  | nil => exact .refl _
  | cons t rest ih =>
    simp only [List.flatMap_cons, List.flatMap_append]
    calc t.listing ++ rest.flatMap Tree.listing
      _ |>.Perm ((t :: t.listing.flatMap Tree.children) ++
          (rest ++ (rest.flatMap Tree.listing).flatMap Tree.children)) :=
        t.listing_perm_attached.append ih
      _ |>.Perm (t :: (rest ++ (t.listing.flatMap Tree.children ++
          (rest.flatMap Tree.listing).flatMap Tree.children))) :=
        .cons t (List.perm_append_comm_assoc _ _ _)

/-- The roots stand in the listing in the order of the forest. -/
theorem roots_sublist_listing (forest : List Tree) :
    forest.Sublist (forest.flatMap Tree.listing) := by
  induction forest with
  | nil => exact .refl _
  | cons t rest ih =>
    rw [List.flatMap_cons]
    exact (List.singleton_sublist.mpr t.self_mem_listing).append ih

/-! ## Loading one tree after the other -/

/-- The tree of a known kind and with literal fields becomes the block. -/
def Tree.Loads (t : Tree) (b : Block) : Prop :=
  ∃ kind literals, t.kind = .ok kind ∧ literalFields t.id t.fields.entries = .ok literals ∧
    b = t.block kind literals

/-- The trees can be loaded and their blocks inserted, one after the other. -/
def Workspace.Takes (ws : Workspace) (trees : List Tree) (ws' : Workspace) : Prop :=
  ∃ bs, List.Forall₂ Tree.Loads trees bs ∧ ws.insertAll bs = .ok ws'

section Takes

variable {ws ws' : Workspace}

theorem Workspace.takes_nil : ws.Takes [] ws' ↔ ws' = ws := by
  constructor
  · rintro ⟨bs, hbs, h⟩
    cases hbs
    exact (Except.ok.inj h).symm
  · rintro rfl
    exact ⟨[], .nil, rfl⟩

theorem Workspace.takes_append {ts us : List Tree} :
    ws.Takes (ts ++ us) ws' ↔ ∃ mid, ws.Takes ts mid ∧ mid.Takes us ws' := by
  constructor
  · rintro ⟨bs, hbs, h⟩
    have hts : List.Forall₂ Tree.Loads ts (bs.take ts.length) := by
      simpa using List.forall₂_take ts.length hbs
    have hus : List.Forall₂ Tree.Loads us (bs.drop ts.length) := by
      simpa using List.forall₂_drop ts.length hbs
    rw [← List.take_append_drop ts.length bs, insertAll_append, bind_eq_ok_iff] at h
    obtain ⟨mid, hmid, h⟩ := h
    exact ⟨mid, ⟨_, hts, hmid⟩, ⟨_, hus, h⟩⟩
  · rintro ⟨mid, ⟨bs, hbs, hmid⟩, ⟨cs, hcs, h⟩⟩
    refine ⟨bs ++ cs, List.rel_append hbs hcs, ?_⟩
    rw [insertAll_append, hmid]
    exact h

theorem Workspace.takes_singleton {t : Tree} :
    ws.Takes [t] ws' ↔ ∃ b, t.Loads b ∧ ws.insert b = .ok ws' := by
  constructor
  · rintro ⟨bs, hbs, h⟩
    obtain ⟨b, _, hb, hnil, rfl⟩ := List.forall₂_cons_left_iff.mp hbs
    cases hnil
    rw [insertAll_cons, bind_eq_ok_iff] at h
    obtain ⟨mid, hmid, h⟩ := h
    exact ⟨b, hb, hmid.trans h⟩
  · rintro ⟨b, hb, h⟩
    refine ⟨[b], .cons hb .nil, ?_⟩
    rw [insertAll_cons, h]
    rfl

theorem flattenInputs_eq (inputs : List (String × Tree)) (ws : Workspace) :
    flattenInputs inputs ws = flattenAll (inputs.map Prod.snd) ws := by
  induction inputs generalizing ws with
  | nil => rfl
  | cons p rest ih =>
    rw [flattenInputs, List.map_cons, flattenAll]
    simp only [ih]

theorem flattenNext_eq (next : Option Tree) (ws : Workspace) :
    flattenNext next ws = flattenAll next.toList ws := by
  cases next with
  | none => rfl
  | some t =>
    simp only [flattenNext, Option.toList_some, flattenAll]
    cases t.flatten ws <;> rfl

/-- A tree is flattened in five steps: two looks at it alone, its inputs, itself, the rest. -/
theorem Tree.flatten_eq_ok_iff {t : Tree} :
    t.flatten ws = .ok ws' ↔
      ∃ b inner mid, t.Loads b ∧ flattenAll (t.inputs.map Prod.snd) ws = .ok inner ∧
        inner.insert b = .ok mid ∧ flattenAll t.next.toList mid = .ok ws' := by
  obtain ⟨type, id, fields, inputs, next⟩ := t
  rw [Tree.flatten]
  simp only [bind_eq_ok_iff, flattenInputs_eq, flattenNext_eq, Tree.Loads]
  constructor
  · rintro ⟨kind, hkind, literals, hliterals, inner, hinner, mid, hmid, h⟩
    exact ⟨_, inner, mid, ⟨kind, literals, hkind, hliterals, rfl⟩, hinner, hmid, h⟩
  · rintro ⟨_, inner, mid, ⟨kind, literals, hkind, hliterals, rfl⟩, hinner, hmid, h⟩
    exact ⟨kind, hkind, literals, hliterals, inner, hinner, mid, hmid, h⟩

/-- Where each tree is flattened as it is listed, so are several. -/
theorem flattenAll_eq_ok_iff_of {ts : List Tree}
    (hts : ∀ t ∈ ts, ∀ ws ws', t.flatten ws = .ok ws' ↔ ws.Takes t.listing ws') :
    ∀ {ws ws'}, flattenAll ts ws = .ok ws' ↔ ws.Takes (ts.flatMap Tree.listing) ws' := by
  induction ts with
  | nil =>
    intro ws ws'
    rw [flattenAll, List.flatMap_nil, Workspace.takes_nil]
    exact ⟨fun h => (Except.ok.inj h).symm, fun h => congrArg _ h.symm⟩
  | cons t rest ih =>
    intro ws ws'
    rw [List.forall_mem_cons] at hts
    rw [flattenAll, bind_eq_ok_iff, List.flatMap_cons, Workspace.takes_append]
    simp only [hts.1, ih hts.2]

theorem Tree.flatten_eq_ok_iff_takes {t : Tree} :
    ∀ ws ws', t.flatten ws = .ok ws' ↔ ws.Takes t.listing ws' := by
  induction t using Tree.induction with
  | h t ih =>
    intro ws ws'
    have hinputs : ∀ c ∈ t.inputs.map Prod.snd, c ∈ t.children := fun c =>
      List.mem_append_left _
    have hnext : ∀ c ∈ t.next.toList, c ∈ t.children := fun c => List.mem_append_right _
    have hlisting : t.listing = (t.inputs.map Prod.snd).flatMap Tree.listing ++
        ([t] ++ t.next.toList.flatMap Tree.listing) := by
      rw [t.listing_eq, List.flatMap_map]
      rfl
    rw [flatten_eq_ok_iff, hlisting]
    simp only [Workspace.takes_append, Workspace.takes_singleton,
      flattenAll_eq_ok_iff_of fun c hc => ih c (hinputs c hc),
      flattenAll_eq_ok_iff_of fun c hc => ih c (hnext c hc)]
    constructor
    · rintro ⟨b, inner, mid, hb, hinner, hmid, h⟩
      exact ⟨inner, hinner, mid, ⟨b, hb, hmid⟩, h⟩
    · rintro ⟨inner, hinner, mid, ⟨b, hb, hmid⟩, h⟩
      exact ⟨b, inner, mid, hb, hinner, hmid, h⟩

/-- Trees can be flattened exactly if the trees of their listing can be loaded one by one and the
blocks inserted in this order. -/
theorem flattenAll_eq_ok_iff {ts : List Tree} :
    flattenAll ts ws = .ok ws' ↔ ws.Takes (ts.flatMap Tree.listing) ws' :=
  flattenAll_eq_ok_iff_of fun _ _ => Tree.flatten_eq_ok_iff_takes

end Takes

end BlockSteps
