import Mathlib
import BlockSteps.Proofs.Compile.Followed

/-!
# Circles of next links

A chain whose next links lead in a circle is walked along until its steps are too many.  No block is
remembered on the way: what ends the walk is that some block of the circle gives a step, and that
the steps are counted after every block.

**The measure** (`walkOutcome_of_circle`).  Of a walk on the way to the circle or on it, two numbers
are left: the links to the block that gives a step, and the steps to the limit.  A link makes the
first less, and does not make the second greater.  At the block itself the second gets less, and the
first becomes at most the number of blocks.  So the bound of the walk is enough, at one round for
each step that is allowed and one more.

**Two bounds that must not matter.**  Both rest on one fact about growing properties of the blocks
(`holds_at_length`): what stands still once stands still for ever, so no more steps are needed than
there are blocks.

* If links lead from one block to another at all, they do so with no more links than there are
  blocks (`within_size`).
* A loop block that compiles on its own compiles in a chain, where its body may nest one level less
  deep (`chainOutcome_of_ok`).
-/

namespace BlockSteps

/-- A growing chain of finite sets that stands still as soon as it does so for one step has all its
elements at the bound of its sizes. -/
theorem subset_at_bound {α : Type} (sets : Nat → Finset α) {bound : Nat}
    (hgrows : ∀ n, sets n ⊆ sets (n + 1)) (hbound : ∀ n, (sets n).card ≤ bound)
    (hstays : ∀ n, sets (n + 1) ⊆ sets n → sets (n + 2) ⊆ sets (n + 1)) (n : Nat) :
    sets n ⊆ sets bound := by
  have hmono : Monotone sets := monotone_nat_of_le_succ hgrows
  have hcards (m : Nat) (heq : (sets m).card = (sets (m + 1)).card) :
      (sets (m + 1)).card = (sets (m + 2)).card := by
    have hsame : sets m = sets (m + 1) := Finset.eq_of_subset_of_card_le (hgrows m) heq.ge
    have hback : sets (m + 2) ⊆ sets (m + 1) := hstays m hsame.ge
    exact congrArg Finset.card (Finset.Subset.antisymm (hgrows (m + 1)) hback)
  rcases Nat.le_total n bound with hle | hle
  · exact hmono hle
  · have hcard : (sets n).card = (sets bound).card :=
      Nat.stabilises_of_monotone (Finset.card_mono.comp hmono) hbound hcards hle
    exact (Finset.eq_of_subset_of_card_le (hmono hle) hcard.le).ge

/-- Let a property grow with a number, and stand still as soon as it does so from one number to the
next.  On a list, what it holds of at some number it holds of at the length of the list. -/
theorem holds_at_length {α : Type} (xs : List α) (P : Nat → α → Prop)
    (hgrows : ∀ n x, P n x → P (n + 1) x)
    (hstays : ∀ n, (∀ x ∈ xs, P (n + 1) x → P n x) → ∀ x ∈ xs, P (n + 2) x → P (n + 1) x)
    {n : Nat} {x : α} (hx : x ∈ xs) (h : P n x) : P xs.length x := by
  classical
  have hsubset := subset_at_bound (fun n => xs.toFinset.filter (P n))
    (fun n => Finset.monotone_filter_right _ fun x _ => hgrows n x)
    (fun n => (Finset.card_filter_le _ _).trans xs.toFinset_card_le)
    (fun n hstill => ?_) n
  · have hmem := hsubset (Finset.mem_filter.mpr ⟨List.mem_toFinset.mpr hx, h⟩)
    exact (Finset.mem_filter.mp hmem).2
  · intro y hy
    obtain ⟨hy, hP⟩ := Finset.mem_filter.mp hy
    refine Finset.mem_filter.mpr ⟨hy, hstays n (fun z hz hP => ?_) y (List.mem_toFinset.mp hy) hP⟩
    exact (Finset.mem_filter.mp (hstill (Finset.mem_filter.mpr ⟨List.mem_toFinset.mpr hz, hP⟩))).2

namespace Workspace

variable {ws : Workspace} {opts : Options} {limit : Nat} {head b c d : Block}

/-! ## How deep bodies nest -/

section Bodies

variable {body body' : Block → Except Failure (List Step)}
  (hbody : ∀ c ∈ ws.blocks, ∀ ss, body c = .ok ss → body' c = .ok ss)
include hbody

theorem unrollOutcome_mono {count : Option Float} {ss : List Step}
    (h : ws.unrollOutcome limit body b count = .ok ss) :
    ws.unrollOutcome limit body' b count = .ok ss := by
  unfold unrollOutcome at h ⊢
  split at h
  · exact h
  · obtain ⟨head, hhead, h⟩ := bind_eq_ok_iff.mp h
    refine bind_eq_ok_iff.mpr ⟨head, hhead, ?_⟩
    rw [checked_eq_ok_iff, resolve_eq_ok_iff] at hhead
    split at h
    · rename_i hzero
      rwa [if_pos hzero]
    · rename_i hzero
      rw [if_neg hzero]
      obtain ⟨steps, hsteps, h⟩ := bind_eq_ok_iff.mp h
      exact bind_eq_ok_iff.mpr ⟨steps, hbody head (mem_of_find? hhead) steps hsteps, h⟩

theorem contributionOutcome_mono {ss : List Step}
    (h : ws.contributionOutcome opts body b = .ok ss) :
    ws.contributionOutcome opts body' b = .ok ss := by
  obtain ⟨k, hk, h⟩ := bind_eq_ok_iff.mp h
  refine bind_eq_ok_iff.mpr ⟨k, hk, ?_⟩
  cases k with
  | action a => exact h
  | loop l =>
    obtain ⟨count, hcount, h⟩ := bind_eq_ok_iff.mp h
    exact bind_eq_ok_iff.mpr ⟨count, hcount, unrollOutcome_mono hbody h⟩
  | expression e => exact h

end Bodies

theorem walkOutcome_mono {part part' : Block → Except Failure (List Step)}
    (hpart : ∀ c ss, part c = .ok ss → part' c = .ok ss) {bound done : Nat} {ss : List Step}
    (h : ws.walkOutcome limit part bound done b = .ok ss) :
    ws.walkOutcome limit part' bound done b = .ok ss := by
  induction bound generalizing done b ss with
  | zero => cases h
  | succ bound ih =>
    unfold walkOutcome at h ⊢
    obtain ⟨more, hmore, h⟩ := bind_eq_ok_iff.mp h
    obtain ⟨u, hlimit, h⟩ := bind_eq_ok_iff.mp h
    refine bind_eq_ok_iff.mpr ⟨more, hpart b more hmore, bind_eq_ok_iff.mpr ⟨u, hlimit, ?_⟩⟩
    split at h
    · exact h
    · obtain ⟨next, hnext, h⟩ := bind_eq_ok_iff.mp h
      obtain ⟨rest, hrest, h⟩ := bind_eq_ok_iff.mp h
      exact bind_eq_ok_iff.mpr ⟨next, hnext, bind_eq_ok_iff.mpr ⟨rest, ih hrest, h⟩⟩

/-- If the blocks compile at one depth of bodies to what they compile to at another, then so do the
chains around them, one level up. -/
theorem chainOutcome_succ_of {nest nest' : Nat} {ss : List Step}
    (hbody : ∀ c ∈ ws.blocks, ∀ ss, ws.chainOutcome opts nest c = .ok ss →
      ws.chainOutcome opts nest' c = .ok ss)
    (h : ws.chainOutcome opts (nest + 1) head = .ok ss) :
    ws.chainOutcome opts (nest' + 1) head = .ok ss :=
  walkOutcome_mono (fun _ _ => contributionOutcome_mono hbody) h

theorem chainOutcome_mono {nest nest' : Nat} (hle : nest ≤ nest') {ss : List Step}
    (h : ws.chainOutcome opts nest head = .ok ss) : ws.chainOutcome opts nest' head = .ok ss := by
  induction nest generalizing nest' head ss with
  | zero => cases h
  | succ nest ih =>
    obtain ⟨nest', rfl⟩ := Nat.exists_eq_succ_of_ne_zero (Nat.ne_zero_of_lt hle)
    exact chainOutcome_succ_of (fun _ _ _ => ih (Nat.le_of_succ_le_succ hle)) h

/-- The chain of the block compiles through so many bodies. -/
def CompilesAt (ws : Workspace) (opts : Options) (nest : Nat) (c : Block) : Prop :=
  ∃ ss, ws.chainOutcome opts nest c = .ok ss

/-- The chain of a block that compiles at some depth of bodies compiles with bodies that nest no
deeper than there are blocks. -/
theorem chainOutcome_of_ok (hhead : head ∈ ws.blocks) {nest : Nat} {ss : List Step}
    (hnest : ws.size ≤ nest) (h : ws.chainOutcome opts nest head = .ok ss) :
    ws.chainOutcome opts ws.size head = .ok ss := by
  have hgrows : ∀ n c, ws.CompilesAt opts n c → ws.CompilesAt opts (n + 1) c :=
    fun n c ⟨ss, hc⟩ => ⟨ss, chainOutcome_mono (Nat.le_succ n) hc⟩
  have hstays : ∀ n, (∀ c ∈ ws.blocks.toList, ws.CompilesAt opts (n + 1) c →
        ws.CompilesAt opts n c) →
      ∀ c ∈ ws.blocks.toList, ws.CompilesAt opts (n + 2) c → ws.CompilesAt opts (n + 1) c := by
    rintro n hstill c - ⟨ss, hc⟩
    refine ⟨ss, chainOutcome_succ_of (fun d hd ds hds => ?_) hc⟩
    obtain ⟨ds', hds'⟩ := hstill d (by simpa using hd) ⟨ds, hds⟩
    cases hds.symm.trans (chainOutcome_mono (Nat.le_succ n) hds')
    exact hds'
  obtain ⟨ss', hss'⟩ : ws.CompilesAt opts ws.size head :=
    holds_at_length ws.blocks.toList (ws.CompilesAt opts) hgrows hstays (by simpa using hhead)
      ⟨ss, h⟩
  cases h.symm.trans (chainOutcome_mono hnest hss')
  exact hss'

/-- A block that compiles on its own compiles in a chain. -/
theorem exists_contribution_of_fragment {f : Fragment}
    (h : (ws.fragment opts b).outcome = .ok f) :
    ∃ more, ws.contributionOutcome opts (ws.chainOutcome opts ws.size) b = .ok more := by
  rw [fragment, Traced.outcome_bind, Traced.outcome_lift] at h
  obtain ⟨k, hk, h⟩ := bind_eq_ok_iff.mp h
  cases k with
  | expression e => exact ⟨[], bind_eq_ok_iff.mpr ⟨.expression e, hk, rfl⟩⟩
  | action a =>
    dsimp only at h
    rw [Traced.outcome_bind, Traced.outcome_lift] at h
    obtain ⟨s, hs, -⟩ := bind_eq_ok_iff.mp h
    exact ⟨[s], bind_eq_ok_iff.mpr ⟨.action a, hk, bind_eq_ok_iff.mpr ⟨s, hs, rfl⟩⟩⟩
  | loop l =>
    dsimp only at h
    rw [Traced.outcome_bind, Traced.outcome_lift] at h
    obtain ⟨count, hcount, h⟩ := bind_eq_ok_iff.mp h
    rw [Traced.outcome_bind, outcome_unroll] at h
    obtain ⟨ss, hss, -⟩ := bind_eq_ok_iff.mp h
    refine ⟨ss, bind_eq_ok_iff.mpr ⟨.loop l, hk, bind_eq_ok_iff.mpr ⟨count, hcount, ?_⟩⟩⟩
    refine unrollOutcome_mono (fun c hc steps hsteps => ?_) hss
    rw [outcome_chain] at hsteps
    exact chainOutcome_of_ok hc (Nat.le_succ ws.size) hsteps

/-- A block in a chain contributes one step if it is an action. -/
theorem length_of_action {body : Block → Except Failure (List Step)} {a : Action}
    (hkind : b.kind = .ok (.action a)) {ss : List Step}
    (h : ws.contributionOutcome opts body b = .ok ss) : ss.length = 1 := by
  obtain ⟨e, hk, -⟩ | ⟨a', s, -, -, rfl⟩ | ⟨l, count, hk, -⟩ := contributionOutcome_eq_ok h
  · cases kind_unique hkind hk
  · rfl
  · cases kind_unique hkind hk

/-! ## How far next links lead -/

/-- From wherever a chain has come to, it comes to every block of its circle. -/
theorem comes_to_circle (hb : Relation.ReflTransGen ws.ComesNext head b)
    (hcircle : Relation.TransGen ws.ComesNext b b)
    (hc : Relation.ReflTransGen ws.ComesNext head c) :
    Relation.ReflTransGen ws.ComesNext c b := by
  have hback : ∀ {d}, Relation.ReflTransGen ws.ComesNext b d →
      Relation.ReflTransGen ws.ComesNext d b := by
    intro d hd
    induction hd with
    | refl => exact .refl
    | @tail m n _ hmn ih =>
      -- The way back from `m` begins with its one next link, if need be with that of the circle.
      obtain ⟨k, hmk, hkb⟩ : ∃ k, ws.ComesNext m k ∧ Relation.ReflTransGen ws.ComesNext k b := by
        rcases ih.cases_head with rfl | hhead
        · exact Relation.TransGen.head'_iff.mp hcircle
        · exact hhead
      cases ws.rightUnique_comesNext hmn hmk
      exact hkb
  rcases Relation.ReflTransGen.total_of_right_unique ws.rightUnique_comesNext hb hc with h | h
  · exact hback h
  · exact h

/-- The block is reached by at most so many next links. -/
def Within (ws : Workspace) (b : Block) : Nat → Block → Prop
  | 0, c => c = b
  | n + 1, c => c = b ∨ ∃ d, ws.ComesNext c d ∧ ws.Within b n d

theorem Within.succ {n : Nat} (h : ws.Within b n c) : ws.Within b (n + 1) c := by
  induction n generalizing c with
  | zero => exact .inl h
  | succ n ih =>
    rcases h with h | ⟨d, hcd, h⟩
    · exact .inl h
    · exact .inr ⟨d, hcd, ih h⟩

theorem exists_within (h : Relation.ReflTransGen ws.ComesNext c b) : ∃ n, ws.Within b n c := by
  induction h using Relation.ReflTransGen.head_induction_on with
  | refl => exact ⟨0, rfl⟩
  | head hcd _ ih =>
    obtain ⟨n, hn⟩ := ih
    exact ⟨n + 1, .inr ⟨_, hcd, hn⟩⟩

/-- No more links are needed than there are blocks. -/
theorem within_size (hc : c ∈ ws.blocks) (h : Relation.ReflTransGen ws.ComesNext c b) :
    ws.Within b ws.size c := by
  obtain ⟨n, hn⟩ := exists_within h
  refine holds_at_length ws.blocks.toList (ws.Within b) (fun _ _ => Within.succ) ?_
    (by simpa using hc) hn
  rintro n hstill d - (hd | ⟨e, hde, he⟩)
  · exact .inl hd
  · exact .inr ⟨e, hde, hstill e (by simpa using hde.refersTo.mem) he⟩

/-! ## Walking in a circle -/

section Walk

variable {part : Block → Except Failure (List Step)} {bound done : Nat} {more : List Step}
  (hmore : part c = .ok more)
include hmore

theorem walkOutcome_of_exceeds (hexceeds : limit < done + more.length) :
    ws.walkOutcome limit part (bound + 1) done c =
      .error (.rejected (.stepLimitExceeded limit c.id)) := by
  have hcheck : checkLimit limit (done + more.length) c.id =
      .error (.stepLimitExceeded limit c.id) := if_pos hexceeds
  rw [walkOutcome, hmore, ok_bind, hcheck]
  rfl

/-- A walk fails if it fails from the next block on. -/
theorem walkOutcome_of_next_error (hfits : done + more.length ≤ limit) (hnext : ws.ComesNext c d)
    {e : Failure} (h : ws.walkOutcome limit part bound (done + more.length) d = .error e) :
    ws.walkOutcome limit part (bound + 1) done c = .error e := by
  obtain ⟨id, hid, hd⟩ := hnext
  have hcheck : checkLimit limit (done + more.length) c.id = .ok () :=
    checkLimit_eq_ok_iff.mpr hfits
  rw [walkOutcome, hmore, ok_bind, hcheck, hid]
  dsimp only
  rw [checked_ok, ok_bind, resolve_eq_ok_iff.mpr hd, checked_ok, ok_bind, h]
  rfl

end Walk

section Circle

variable {part : Block → Except Failure (List Step)}
  (hb : Relation.ReflTransGen ws.ComesNext head b)
  (hcircle : Relation.TransGen ws.ComesNext b b)
include hb hcircle

theorem exists_next_on_circle (hc : Relation.ReflTransGen ws.ComesNext head c) :
    ∃ d, ws.ComesNext c d := by
  rcases (comes_to_circle hb hcircle hc).cases_head with rfl | ⟨d, hcd, -⟩
  · obtain ⟨d, hcd, -⟩ := Relation.TransGen.head'_iff.mp hcircle
    exact ⟨d, hcd⟩
  · exact ⟨d, hcd⟩

variable (hpart : ∀ c, Relation.ReflTransGen ws.ComesNext head c → ∃ more, part c = .ok more)
  (hgives : ∀ more, part b = .ok more → more.length = 1)
include hpart hgives

/-- The induction is on the bound.  What is left are the links to the block that gives a step, and a
round of the circle for each step to the limit. -/
theorem walkOutcome_of_circle {bound done links : Nat}
    (hc : Relation.ReflTransGen ws.ComesNext head c) (hlinks : ws.Within b links c)
    (hleft : links + (limit - done) * (ws.size + 1) < bound) :
    ∃ d, Relation.ReflTransGen ws.ComesNext head d ∧
      ws.walkOutcome limit part bound done c =
        .error (.rejected (.stepLimitExceeded limit d.id)) := by
  induction bound generalizing c done links with
  | zero => omega
  | succ bound ih =>
    obtain ⟨more, hmore⟩ := hpart c hc
    rcases Nat.lt_or_ge limit (done + more.length) with hexceeds | hfits
    · exact ⟨c, hc, walkOutcome_of_exceeds hmore hexceeds⟩
    obtain ⟨next, hnext⟩ := exists_next_on_circle hb hcircle hc
    have hon : Relation.ReflTransGen ws.ComesNext head next := hc.tail hnext
    suffices hsuffices : ∃ links, ws.Within b links next ∧
        links + (limit - (done + more.length)) * (ws.size + 1) < bound by
      obtain ⟨links, hlinks, hleft⟩ := hsuffices
      obtain ⟨d, hd, herror⟩ := ih hon hlinks hleft
      exact ⟨d, hd, walkOutcome_of_next_error hmore hfits hnext herror⟩
    by_cases hcb : c = b
    · -- A step was given: one round less is left, and a new one begins.
      subst hcb
      have hlength := hgives more hmore
      have hround : (limit - done) * (ws.size + 1) =
          (limit - (done + more.length)) * (ws.size + 1) + (ws.size + 1) := by
        rw [← Nat.succ_mul]
        congr 1
        omega
      exact ⟨ws.size, within_size hnext.refersTo.mem (comes_to_circle hb hcircle hon), by omega⟩
    · obtain _ | links := links
      · exact absurd hlinks hcb
      obtain ⟨d, hcd, hd⟩ := hlinks.resolve_left hcb
      cases ws.rightUnique_comesNext hnext hcd
      have hrounds : (limit - (done + more.length)) * (ws.size + 1) ≤
          (limit - done) * (ws.size + 1) :=
        Nat.mul_le_mul_right _ (by omega)
      exact ⟨links, hd, by omega⟩

end Circle

/-- **A circle of next links is ended by the step limit.**  Let the next links from a head lead into
a circle on which some block is an action, and let every block on the way that is no value compile
on its own.  Then the chain of the head comes to an end, and is rejected because of the limit, at a
block on the way.  It does not matter how many blocks of the circle give no steps. -/
theorem chain_of_circle {a : Action} (hb : Relation.ReflTransGen ws.ComesNext head b)
    (hcircle : Relation.TransGen ws.ComesNext b b) (hkind : b.kind = .ok (.action a))
    (hcompiles : ∀ c, Relation.ReflTransGen ws.ComesNext head c →
      (∀ e, c.kind ≠ .ok (.expression e)) → ∃ f, (ws.fragment opts c).outcome = .ok f) :
    ∃ c, Relation.ReflTransGen ws.ComesNext head c ∧
      (ws.chain opts head).outcome =
        .error (.rejected (.stepLimitExceeded opts.maxSteps c.id)) := by
  rw [outcome_chain, nestBound, chainOutcome]
  have hpart : ∀ c, Relation.ReflTransGen ws.ComesNext head c →
      ∃ more, ws.contributionOutcome opts (ws.chainOutcome opts ws.size) c = .ok more := by
    intro c hc
    by_cases hvalue : ∃ e, c.kind = .ok (.expression e)
    · obtain ⟨e, he⟩ := hvalue
      exact ⟨[], bind_eq_ok_iff.mpr ⟨.expression e, checked_eq_ok_iff.mpr he, rfl⟩⟩
    · obtain ⟨f, hf⟩ := hcompiles c hc (not_exists.mp hvalue)
      exact exists_contribution_of_fragment hf
  obtain ⟨links, hlinks, hle⟩ : ∃ links, ws.Within b links head ∧ links ≤ ws.size + 1 := by
    rcases hb.cases_head with rfl | ⟨next, hnext, hrest⟩
    · exact ⟨0, rfl, Nat.zero_le _⟩
    · exact ⟨ws.size + 1, .inr ⟨next, hnext, within_size hnext.refersTo.mem hrest⟩, le_rfl⟩
  refine walkOutcome_of_circle hb hcircle hpart (fun _ => length_of_action hkind) .refl hlinks ?_
  have hbound : ws.walkBound opts.maxSteps =
      opts.maxSteps * (ws.size + 1) + 2 * (ws.size + 1) := by
    unfold walkBound
    ring
  rw [hbound, Nat.sub_zero]
  omega

/-- An empty loop that leads into a circle: a number that does not spell one, a loop with two turns,
and a picture. -/
def rounds : Workspace where
  blocks := #[
    { id := "e", type := "controls_repeat", next := some "n" },
    { id := "n", type := "math_number", fields := .ofList [("NUM", .text "many")],
      next := some "l" },
    { id := "l", type := "controls_repeat", fields := .ofList [("TIMES", .number 2)],
      statements := .ofList [("DO", "w")], next := some "f" },
    { id := "f", type := "acquire_frame_block", next := some "n" },
    { id := "w", type := "wait_time_block" }]

/-- With four steps allowed, the second round ends at the loop. -/
theorem chain_of_circle_rounds :
    (rounds.chain { maxSteps := 4 } rounds.blocks[0]).outcome =
        .error (.rejected (.stepLimitExceeded 4 "l")) ∧
      ∃ c, Relation.ReflTransGen rounds.ComesNext rounds.blocks[0] c ∧
        (rounds.chain { maxSteps := 4 } rounds.blocks[0]).outcome =
          .error (.rejected (.stepLimitExceeded 4 c.id)) := by
  have hen : rounds.ComesNext rounds.blocks[0] rounds.blocks[1] :=
    ⟨"n", by decide +kernel, by decide +kernel⟩
  have hnl : rounds.ComesNext rounds.blocks[1] rounds.blocks[2] :=
    ⟨"l", by decide +kernel, by decide +kernel⟩
  have hlf : rounds.ComesNext rounds.blocks[2] rounds.blocks[3] :=
    ⟨"f", by decide +kernel, by decide +kernel⟩
  have hfn : rounds.ComesNext rounds.blocks[3] rounds.blocks[1] :=
    ⟨"n", by decide +kernel, by decide +kernel⟩
  have hblocks : ∀ c ∈ rounds.blocks.toList, c.kind = .ok (.expression .number) ∨
      ((rounds.fragment { maxSteps := 4 } c).outcome.toOption.isSome = true) := by
    decide +kernel
  have hmem : ∀ c, Relation.ReflTransGen rounds.ComesNext rounds.blocks[0] c →
      c ∈ rounds.blocks := by
    intro c hc
    rcases hc.cases_tail with rfl | ⟨d, -, hdc⟩
    · simp [rounds]
    · exact hdc.refersTo.mem
  have hkind : rounds.blocks[3].kind = .ok (.action .acquireFrame) := by decide +kernel
  refine ⟨by decide +kernel,
    chain_of_circle (((Relation.ReflTransGen.single hen).tail hnl).tail hlf)
      (((Relation.TransGen.single hfn).tail hnl).tail hlf) hkind fun c hc hvalue => ?_⟩
  rcases hblocks c (by simpa using hmem c hc) with hnumber | hsome
  · exact absurd hnumber (hvalue .number)
  · obtain ⟨f, hf⟩ := Option.isSome_iff_exists.mp hsome
    exact ⟨f, eq_ok_of_toOption hf⟩

end Workspace

end BlockSteps
