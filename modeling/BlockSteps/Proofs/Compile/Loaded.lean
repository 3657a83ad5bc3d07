import Mathlib
import BlockSteps.Proofs.Compile.Origins
import BlockSteps.Proofs.Compile.Validation

/-!
# Compiling a loaded workspace

After loading, what can still be wrong with a program is what its blocks **say**: a literal, a
value, a block without a value in a value slot, too many steps (`CompileError.Remaining`).  What is
wrong with the graph itself was found before: a type that is not of the catalog, a reference without
its block, an id twice.  And a loaded workspace has no circles, so the compiler comes to an end.

`Settles` says that a compilation ends with a result or with a remaining error.  It has two parts,
and neither is particular to loading:

* without circles no bound stops the compiler, because bounds exceed what lies below a block;
* the errors of a program arise at blocks of the workspace, and where every block is of the catalog
  and every reference has its block, only remaining errors arise (`remaining_of_arisesIn`).

**Main statement.**  `compile_of_ofText`: compiling a loaded workspace gives a document or one of
the four remaining errors.
-/

namespace BlockSteps

/-- The errors that a workspace can have after it was loaded. -/
inductive CompileError.Remaining : CompileError → Prop where
  /-- A literal does not spell what is wanted in its place. -/
  | malformedLiteral (block : BlockId) (field value : String) :
      Remaining (.malformedLiteral block field value)
  /-- A value is not a number or infinite. -/
  | nonFiniteValue (block : BlockId) (slot : String) : Remaining (.nonFiniteValue block slot)
  /-- A block without a value is attached to a value slot. -/
  | expectedValueBlock (block : BlockId) (type : String) :
      Remaining (.expectedValueBlock block type)
  /-- The program has more steps than are allowed. -/
  | stepLimitExceeded (limit : Nat) (block : BlockId) : Remaining (.stepLimitExceeded limit block)

/-- A part of a compilation ends with a result or with a remaining error. -/
def Settles {α : Type} (x : Except Failure α) : Prop :=
  ∀ f, x = .error f → ∃ e : CompileError, f = .rejected e ∧ e.Remaining

namespace Workspace

variable {ws : Workspace}

/-- In a complete workspace no error is about the graph. -/
theorem remaining_of_arisesIn (hws : ws.Complete) {limit : Nat} {e : CompileError}
    (h : e.ArisesIn ws limit (· ∈ ws.blocks)) : e.Remaining := by
  cases h with
  | unknownBlockType hb htag =>
    obtain ⟨k, hk⟩ := (hws.sound hb).registered
    exact absurd hk (htag k)
  | danglingReference hb hid hnone =>
    obtain ⟨c, hc⟩ := hws.resolves _ hb _ hid
    cases hnone.symm.trans hc
  | field | attachedText => exact .malformedLiteral _ _ _
  | constant | operation => exact .nonFiniteValue _ _
  | expectedValueBlock => exact .expectedValueBlock _ _
  | stepLimitExceeded => exact .stepLimitExceeded _ _

theorem settles_chainsOutcome (hws : ws.Complete) (hacyclic : ws.Acyclic) {opts : Options}
    {heads : List BlockId} (hheads : ∀ id ∈ heads, id ∈ ws.ids) (done : Nat) :
    Settles (ws.chainsOutcome opts done heads) := by
  have hsame : SameEnd (ws.chainsOutcome opts done heads) (ws.chainsOutcome opts done heads) :=
    (IsPart.refl ws).sameEnd_chainsOutcome hacyclic (fun _ _ => rfl) done
  have hfails : ws.FailsIn opts.maxSteps (· ∈ ws.blocks) (ws.chainsOutcome opts done heads) := by
    refine ws.closed_blocks.failsIn_chainsOutcome (fun id hid => ?_) done
    obtain ⟨head, hfound⟩ := exists_find?_of_mem_ids (hheads id hid)
    exact ⟨head, hfound, mem_of_find? hfound⟩
  intro f hf
  cases f with
  | endless => exact absurd hf hsame.ends
  | rejected e => exact ⟨e, rfl, remaining_of_arisesIn hws (hfails e hf)⟩

/-- Compiling a complete workspace without circles gives a document or a remaining error. -/
theorem compile_of_complete (hws : ws.Complete) (hacyclic : ws.Acyclic) (opts : Options) :
    (∃ doc, ws.compile opts = .ok doc) ∨
      ∃ e : CompileError, ws.compile opts = .error (.rejected e) ∧ e.Remaining := by
  have hsettles : Settles (ws.chainsOutcome opts 0 ws.topIds) :=
    settles_chainsOutcome hws hacyclic (fun id hid => (mem_topIds.mp hid).1) 0
  rw [compile, compileFrom_eq]
  cases hsteps : ws.chainsOutcome opts 0 ws.topIds with
  | ok steps => exact .inl ⟨_, rfl⟩
  | error f =>
    obtain ⟨e, rfl, he⟩ := hsettles f hsteps
    exact .inr ⟨e, rfl, he⟩

theorem Lists.complete {forest : List Tree} (h : ws.Lists forest) : ws.Complete where
  kind := fun _ => h.kind
  resolves := fun _ hb _ => h.resolves hb

/-- **A loaded workspace compiles to an end**: to a document or to an error about what its blocks
say, and to none about the graph. -/
theorem compile_of_ofText {order : TopOrder} {text : String} (h : ofText order text = .ok ws)
    (opts : Options) :
    (∃ doc, ws.compile opts = .ok doc) ∨
      ∃ e : CompileError, ws.compile opts = .error (.rejected e) ∧ e.Remaining := by
  obtain ⟨blocks, -, hlists⟩ := lists_of_ofText h
  exact compile_of_complete hlists.complete hlists.acyclic opts

theorem compile_of_ofText_twoChains :
    ofText .asListed twoChainsText = .ok twoChains ∧
      ((∃ doc, twoChains.compile { maxSteps := 3 } = .ok doc) ∨
        ∃ e : CompileError, twoChains.compile { maxSteps := 3 } = .error (.rejected e) ∧
          e.Remaining) :=
  ⟨ofText_twoChainsText, compile_of_ofText ofText_twoChainsText { maxSteps := 3 }⟩

end Workspace

end BlockSteps
