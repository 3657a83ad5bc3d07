import Mathlib
import BlockSteps.Proofs.Compile.Parameters
import BlockSteps.Proofs.Compile.ValueBounds
import BlockSteps.Proofs.Decimal.PlainText

/-!
# Literals in fields and in attached blocks

A parameter of an action can be typed into a field of its block, or into a literal block that is
attached to the slot of the same name.  The two are read by different parts of the compiler.  A
field is asked for its number or its text at once.  An attached block is looked up, its kind is
found, it is evaluated, and a text that it gives is read as a number only then, in the name of the
slot it was attached to.

**Main statement.**  `fragment_withAttached`: both give one result, errors included.  A text block
stands for any literal, and a number block for one that is read as a number.  Two things make it so:

* a literal and the text that is shown for it are read alike (`FieldValue.number?_shown`), which for
  numbers rests on the digits that are shown;
* no other slot of the action sees the difference.  The workspace with the attached block may have
  one block more, and so values are found within a greater bound (`valueWithin_of_size_le`); and the
  action itself, which a circle of value slots may lead back to, has no value in either of the two.
-/

namespace BlockSteps

/-- The dictionary without what stands under a name. -/
def Dict.without {α : Type} (d : Dict α) (name : String) : Dict α :=
  ⟨d.entries.filter fun p => p.1 != name, d.increasing.filter _⟩

theorem Dict.get?_without {α : Type} (d : Dict α) (name other : String) :
    (d.without name).get? other = if other = name then none else d.get? other := by
  have hfilter := find?_filter (fun n => n != name) other d.entries
  unfold get? without
  rw [hfilter]
  by_cases h : other = name <;> simp [h]

/-- The slots whose values are numbers. -/
def Action.numberSlots : Action → List String
  | .setLaserPower => ["POWER"]
  | .waitTime => ["SECONDS"]
  | .acquireFrame => []
  | .moveStage => ["X", "Y", "Z"]

namespace Block

variable (b : Block) (slot : String)

/-- The block with a literal in a field, and nothing in the slot of this name. -/
def withField (v : FieldValue) : Block :=
  { b with fields := b.fields.insert slot v, values := b.values.without slot }

/-- The block with another one attached to a slot, and no field of this name. -/
def withAttached (id : BlockId) : Block :=
  { b with fields := b.fields.without slot, values := b.values.insert slot id }

/-- The block itself, or the one that takes the place of the block with its id. -/
def exchanged (new : Block) : Block := if b.id = new.id then new else b

variable {b slot} {v : FieldValue} {id : BlockId}

@[simp] theorem withField_kind : (b.withField slot v).kind = b.kind := rfl

@[simp] theorem withAttached_id : (b.withAttached slot id).id = b.id := rfl

@[simp] theorem withAttached_kind : (b.withAttached slot id).kind = b.kind := rfl

theorem get?_fields_withField (other : String) :
    (b.withField slot v).fields.get? other = if other = slot then some v else b.fields.get? other :=
  b.fields.get?_insert slot v other

theorem get?_values_withField (other : String) :
    (b.withField slot v).values.get? other = if other = slot then none else b.values.get? other :=
  b.values.get?_without slot other

theorem get?_fields_withAttached (other : String) :
    (b.withAttached slot id).fields.get? other =
      if other = slot then none else b.fields.get? other :=
  b.fields.get?_without slot other

theorem get?_values_withAttached (other : String) :
    (b.withAttached slot id).values.get? other =
      if other = slot then some id else b.values.get? other :=
  b.values.get?_insert slot id other

variable {new : Block}

theorem exchanged_of_eq (h : b.id = new.id) : b.exchanged new = new := if_pos h

theorem exchanged_of_ne (h : b.id ≠ new.id) : b.exchanged new = b := if_neg h

@[simp] theorem exchanged_id : (b.exchanged new).id = b.id := by
  unfold exchanged
  split
  · rename_i h
    exact h.symm
  · rfl

end Block

namespace Workspace

/-- The workspace with a block in the place of the one that has its id. -/
def exchange (ws : Workspace) (new : Block) : Workspace where
  blocks := ws.blocks.map fun b => b.exchanged new
  distinct := by
    simp only [Array.toList_map, List.map_map, Function.comp_def, Block.exchanged_id]
    exact ws.distinct

@[simp] theorem ids_exchange (ws : Workspace) (new : Block) : (ws.exchange new).ids = ws.ids := by
  simp [exchange, ids]

/-- The workspace with a literal in a field of a block. -/
def withField (ws : Workspace) (b : Block) (slot : String) (v : FieldValue) : Workspace :=
  ws.exchange (b.withField slot v)

/-- The workspace with a literal attached to a slot of a block.  The literal is added unless it is
there already, in some other slot or in none. -/
def withAttached (ws : Workspace) (b : Block) (slot : String) (lit : Block) : Workspace :=
  let host := ws.exchange (b.withAttached slot lit.id)
  if h : lit.id ∈ ws.ids then host else host.push lit (by rwa [ids_exchange])

variable {ws : Workspace} {b c lit new : Block} {a : Action} {slot : String} {v : FieldValue}

theorem find?_exchange (id : BlockId) :
    (ws.exchange new).find? id = (ws.find? id).map fun b => b.exchanged new := by
  simp [exchange, find?, Array.find?_map, Function.comp_def]

theorem size_le_size_withAttached : ws.size ≤ (ws.withAttached b slot lit).size := by
  unfold withAttached
  dsimp only
  split <;> simp [exchange, size]

/-- Every reference but one to an added literal leads to what has taken the place of a block. -/
theorem find?_withAttached {id : BlockId} (hid : id = lit.id → lit.id ∈ ws.ids) :
    (ws.withAttached b slot lit).find? id =
      (ws.find? id).map fun c => c.exchanged (b.withAttached slot lit.id) := by
  rw [← find?_exchange]
  unfold withAttached
  dsimp only
  split
  · rfl
  · rename_i hnew
    have hne : lit.id ≠ id := fun h => hnew (hid h.symm)
    rw [find?_push, if_neg hne, Option.or_none]

theorem find?_withAttached_self (hne : lit.id ≠ b.id)
    (hlit : ∀ c ∈ ws.blocks, c.id = lit.id → c = lit) :
    (ws.withAttached b slot lit).find? lit.id = some lit := by
  by_cases hmem : lit.id ∈ ws.ids
  · obtain ⟨c, hc⟩ := exists_find?_of_mem_ids hmem
    obtain rfl := hlit c (mem_of_find? hc) (id_of_find? hc)
    rw [find?_withAttached fun _ => hmem, hc]
    exact congrArg some (Block.exchanged_of_ne hne)
  · have hnone : (ws.exchange (b.withAttached slot lit.id)).find? lit.id = none := by
      rw [find?_exchange, find?_eq_none_iff_not_mem_ids.mpr hmem]
      rfl
    unfold withAttached
    dsimp only
    rw [dif_neg hmem, find?_push, hnone, if_pos rfl, Option.none_or]

/-! ## Older blocks -/

/-- Every reference of the workspace with the field leads to the same place in the one with the
attached block. -/
def SameReferences (ws : Workspace) (b : Block) (slot : String) (v : FieldValue) (lit : Block) :
    Prop :=
  ∀ id ∈ (ws.withField b slot v).referenced, id = lit.id → lit.id ∈ ws.ids

variable (hkind : b.kind = .ok (.action a)) (hsame : ws.SameReferences b slot v lit)
include hsame

section Values

variable {α : Type} {value value' : Block → Except Failure Scalar} {d : Block} {other : String}

/-- Where a reference to an older block is followed, both runs go on with what took its place. -/
theorem resolve_withAttached {origin id : BlockId}
    (hid : id ∈ (ws.withField b slot v).referenced) {g g' : Block → Except Failure α}
    (h : ∀ c ∈ ws.blocks,
      g' (c.exchanged (b.withAttached slot lit.id)) = g (c.exchanged (b.withField slot v))) :
    (checked ((ws.withAttached b slot lit).resolve origin id) >>= g') =
      (checked ((ws.withField b slot v).resolve origin id) >>= g) := by
  unfold resolve
  rw [find?_withAttached (hsame id hid), withField, find?_exchange]
  cases hc : ws.find? id with
  | none => rfl
  | some c => exact h c (mem_of_find? hc)

/-- What is attached to a slot is alike, if the slot is. -/
theorem inputBy_withAttached (hc : c ∈ ws.blocks) (hd : d.id = c.id)
    (hget : d.values.get? other = (c.exchanged (b.withField slot v)).values.get? other)
    (hvalue : ∀ c ∈ ws.blocks, value' (c.exchanged (b.withAttached slot lit.id)) =
      value (c.exchanged (b.withField slot v))) :
    (ws.withAttached b slot lit).inputBy value' d other =
      (ws.withField b slot v).inputBy value (c.exchanged (b.withField slot v)) other := by
  have hmem : c.exchanged (b.withField slot v) ∈ (ws.withField b slot v).blocks :=
    Array.mem_map.mpr ⟨c, hc, rfl⟩
  unfold inputBy
  rw [hget, hd, Block.exchanged_id]
  split
  · rfl
  · rename_i id hget
    refine resolve_withAttached hsame (mem_referenced hmem (mem_references_of_value hget)) ?_
    intro c hc
    rw [hvalue c hc]

end Values

include hkind

/-- An older block has one value in both workspaces, within every bound.  The action itself has
none. -/
theorem valueWithin_withAttached (hc : c ∈ ws.blocks) (bound : Nat) :
    (ws.withAttached b slot lit).valueWithin bound (c.exchanged (b.withAttached slot lit.id)) =
      (ws.withField b slot v).valueWithin bound (c.exchanged (b.withField slot v)) := by
  induction bound generalizing c with
  | zero => rfl
  | succ bound ih =>
    by_cases hid : c.id = b.id
    · have hattached : c.exchanged (b.withAttached slot lit.id) = b.withAttached slot lit.id :=
        Block.exchanged_of_eq hid
      have hfield : c.exchanged (b.withField slot v) = b.withField slot v :=
        Block.exchanged_of_eq hid
      rw [hattached, hfield, valueWithin, valueWithin, Block.withAttached_kind,
        Block.withField_kind, hkind]
      rfl
    · have hattached : c.exchanged (b.withAttached slot lit.id) = c := Block.exchanged_of_ne hid
      have hfield : c.exchanged (b.withField slot v) = c := Block.exchanged_of_ne hid
      have hnumber : (ws.withAttached b slot lit).numberInputBy
            ((ws.withAttached b slot lit).valueWithin bound) c =
          (ws.withField b slot v).numberInputBy ((ws.withField b slot v).valueWithin bound) c := by
        funext other
        unfold numberInputBy
        rw [inputBy_withAttached hsame hc rfl (by rw [hfield]) fun d hd => ih hd, hfield]
      rw [hattached, hfield, valueWithin, valueWithin, hnumber]

/-- An older block has one value in both workspaces. -/
theorem value_withAttached (hc : c ∈ ws.blocks) :
    (ws.withAttached b slot lit).value (c.exchanged (b.withAttached slot lit.id)) =
      (ws.withField b slot v).value (c.exchanged (b.withField slot v)) := by
  have hmem : c.exchanged (b.withField slot v) ∈ (ws.withField b slot v).blocks :=
    Array.mem_map.mpr ⟨c, hc, rfl⟩
  have hsize : (ws.withField b slot v).size = ws.size := by simp [withField, exchange, size]
  have hle : ws.size ≤ (ws.withAttached b slot lit).size := size_le_size_withAttached
  unfold value
  rw [valueWithin_withAttached hkind hsame hc, valueWithin_of_size_le hmem (by omega),
    valueWithin_of_size_le hmem (Nat.le_succ _)]

/-! ## Slots of the action -/

variable (hb : b ∈ ws.blocks)

section OtherSlots

variable {other : String} (hne : other ≠ slot)
include hb hne

/-- The other slots of the action hold the same. -/
theorem input_withAttached :
    (ws.withAttached b slot lit).input (b.withAttached slot lit.id) other =
      (ws.withField b slot v).input (b.withField slot v) other := by
  have hself : b.exchanged (b.withField slot v) = b.withField slot v := Block.exchanged_of_eq rfl
  have hget : (b.withAttached slot lit.id).values.get? other =
      (b.exchanged (b.withField slot v)).values.get? other := by
    rw [hself, Block.get?_values_withAttached, Block.get?_values_withField, if_neg hne, if_neg hne]
  have hinput := inputBy_withAttached hsame hb Block.withAttached_id hget
    fun c hc => value_withAttached hkind hsame hc
  rwa [hself] at hinput

omit hkind hsame hb in
theorem fields_withAttached :
    (b.withAttached slot lit.id).fields.get? other = (b.withField slot v).fields.get? other := by
  rw [Block.get?_fields_withAttached, Block.get?_fields_withField, if_neg hne, if_neg hne]

theorem numberParam_withAttached (default : Float) :
    (ws.withAttached b slot lit).numberParam (b.withAttached slot lit.id) other default =
      (ws.withField b slot v).numberParam (b.withField slot v) other default := by
  have hinput := input_withAttached hkind hsame hb hne
  unfold input at hinput
  unfold numberParam numberInput numberInputBy Block.numberField
  rw [hinput, fields_withAttached hne (v := v)]
  rfl

theorem textParam_withAttached (default : String) :
    (ws.withAttached b slot lit).textParam (b.withAttached slot lit.id) other default =
      (ws.withField b slot v).textParam (b.withField slot v) other default := by
  unfold textParam Block.textField
  rw [input_withAttached hkind hsame hb hne, fields_withAttached hne (v := v)]

end OtherSlots

omit hkind hsame

/-! ## The slot of the literal -/

section OwnSlot

theorem input_withField :
    (ws.withField b slot v).input (b.withField slot v) slot = .ok none := by
  unfold input inputBy
  rw [Block.get?_values_withField, if_pos rfl]

theorem numberParam_withField (default : Float) :
    (ws.withField b slot v).numberParam (b.withField slot v) slot default =
      (checked (v.number? b.id slot) >>= fun x => .ok (x.getD default)) := by
  have hinput : (ws.withField b slot v).input (b.withField slot v) slot = .ok none :=
    input_withField
  unfold input at hinput
  unfold numberParam numberInput numberInputBy Block.numberField
  rw [hinput, Block.get?_fields_withField, if_pos rfl]
  rfl

theorem textParam_withField (default : String) :
    (ws.withField b slot v).textParam (b.withField slot v) slot default = .ok v.shown := by
  unfold textParam Block.textField
  rw [input_withField, Block.get?_fields_withField, if_pos rfl]
  rfl

variable {s : Scalar} (hfound : (ws.withAttached b slot lit).find? lit.id = some lit)
include hfound

theorem input_withAttached_self (hvalue : (ws.withAttached b slot lit).value lit = .ok s) :
    (ws.withAttached b slot lit).input (b.withAttached slot lit.id) slot = .ok (some s) := by
  unfold input inputBy
  rw [Block.get?_values_withAttached, if_pos rfl]
  dsimp only
  rw [resolve_eq_ok_iff.mpr hfound]
  show ((ws.withAttached b slot lit).value lit >>= fun s => .ok (some s)) = _
  rw [hvalue]
  rfl

/-- A text that is attached is read as the literal is that it is the text of. -/
theorem numberParam_withAttached_text
    (hvalue : (ws.withAttached b slot lit).value lit = .ok (.text v.shown)) (default : Float) :
    (ws.withAttached b slot lit).numberParam (b.withAttached slot lit.id) slot default =
      (checked (v.number? b.id slot) >>= fun x => .ok (x.getD default)) := by
  have hnumber : (ws.withAttached b slot lit).numberInput (b.withAttached slot lit.id) slot =
      checked (v.number? b.id slot) := by
    have hinput := input_withAttached_self hfound hvalue
    unfold input at hinput
    unfold numberInput numberInputBy
    rw [hinput, ← v.number?_shown]
    rfl
  unfold numberParam Block.numberField
  rw [hnumber, Block.get?_fields_withAttached, if_pos rfl]
  -- a blank text leaves it to the field, and that is empty
  cases v.number? b.id slot with
  | error e => rfl
  | ok x => cases x <;> rfl

/-- A number that is attached is passed on, since every value is finite. -/
theorem numberParam_withAttached_number {x : Float}
    (hvalue : (ws.withAttached b slot lit).value lit = .ok (.number x)) (default : Float) :
    (ws.withAttached b slot lit).numberParam (b.withAttached slot lit.id) slot default = .ok x := by
  have hnumber : (ws.withAttached b slot lit).numberInput (b.withAttached slot lit.id) slot =
      .ok (some x) := by
    have hinput := input_withAttached_self hfound hvalue
    unfold input at hinput
    unfold numberInput numberInputBy
    rw [hinput]
    show (checked ((b.withAttached slot lit.id).finite slot x) >>= fun y => .ok (some y)) = _
    rw [Block.finite_eq_ok_iff.mpr ⟨isFinite_of_value hvalue, rfl⟩]
    rfl
  unfold numberParam
  rw [hnumber]
  rfl

theorem textParam_withAttached_text
    (hvalue : (ws.withAttached b slot lit).value lit = .ok (.text v.shown)) (default : String) :
    (ws.withAttached b slot lit).textParam (b.withAttached slot lit.id) slot default =
      .ok v.shown := by
  unfold textParam
  rw [input_withAttached_self hfound hvalue]
  rfl

end OwnSlot

end Workspace

/-! ## Literal blocks -/

/-- Which number a literal is does not depend on where it stands. -/
theorem FieldValue.number?_elsewhere {v : FieldValue} {block : BlockId} {field : String} {x : Float}
    (h : v.number? block field = .ok (some x)) (other : BlockId) (otherField : String) :
    v.number? other otherField = .ok (some x) := by
  have hfinite : ∀ {y : Float} {e e' : CompileError},
      (if y.isFinite then Except.ok (some y) else .error e) = .ok (some x) →
      (if y.isFinite then Except.ok (some y) else .error e') = .ok (some x) := by
    intro y e e' h
    split at h
    · rename_i hy
      rw [if_pos hy]
      exact h
    · cases h
  unfold number? at h ⊢
  rcases v with y | s | b
  · exact hfinite h
  · dsimp only at h ⊢
    split at h
    · cases h
    · rename_i hsome
      rw [if_neg hsome]
      split at h
      · exact hfinite h
      · cases h
  · cases h

namespace Workspace

variable {ws : Workspace} {b lit : Block} {a : Action} {slot : String} {v : FieldValue}

/-- A text block has its text as its value. -/
theorem value_of_text (hkind : lit.kind = .ok (.expression .text))
    (hfield : lit.fields.get? "TEXT" = some v) : ws.value lit = .ok (.text v.shown) := by
  rw [value, valueWithin, hkind]
  show Except.ok (Scalar.text (lit.textField "TEXT" "")) = _
  rw [Block.textField, hfield]

/-- A number block has its number as its value. -/
theorem value_of_number (hkind : lit.kind = .ok (.expression .number))
    (hfield : lit.fields.get? "NUM" = some v) {block : BlockId} {x : Float}
    (hnumber : v.number? block slot = .ok (some x)) : ws.value lit = .ok (.number x) := by
  rw [value, valueWithin, hkind]
  show (checked (lit.numberField "NUM") >>= fun n => Except.ok (Scalar.number (n.getD 0))) = _
  rw [Block.numberField, hfield]
  dsimp only
  rw [FieldValue.number?_elsewhere hnumber]
  rfl

/-! ## Actions -/

/-- The parameters of an action depend on what its slots give and on nothing else. -/
theorem params_congr {ws' : Workspace} {b' : Block}
    (hnumber : ∀ slot default, ws'.numberParam b' slot default = ws.numberParam b slot default)
    (htext : ∀ default, ws'.textParam b' "CHANNEL" default = ws.textParam b "CHANNEL" default)
    (a : Action) : a.params ws' b' = a.params ws b := by
  cases a <;> simp only [Action.params, hnumber, htext]

/-- What an action block amounts to depends on its id and its parameters. -/
theorem fragment_congr {ws' : Workspace} {b' : Block} (hkind : b.kind = .ok (.action a))
    (hkind' : b'.kind = .ok (.action a)) (hid : b'.id = b.id)
    (hparams : a.params ws' b' = a.params ws b) (opts : Options) :
    ws'.fragment opts b' = ws.fragment opts b := by
  have hstep : a.step ws' opts.hooks b' = a.step ws opts.hooks b := by
    unfold Action.step Action.bare
    rw [hparams, hid]
  unfold fragment
  rw [hkind, hkind']
  show Traced.ofExcept (a.step ws' opts.hooks b') >>= _ = _
  rw [hstep]
  rfl

section Attached

variable (hb : b ∈ ws.blocks) (hkind : b.kind = .ok (.action a))
  (hlit : ∀ c ∈ ws.blocks, c.id = lit.id → c = lit)
  (hnew : lit ∉ ws.blocks → lit.id ∉ (ws.withField b slot v).referenced)
include hb hkind hlit

theorem find?_literal {e : Expression} (hvalue : lit.kind = .ok (.expression e)) :
    (ws.withAttached b slot lit).find? lit.id = some lit := by
  refine find?_withAttached_self (fun h => ?_) hlit
  rw [hlit b hb h.symm, hvalue] at hkind
  cases hkind

include hnew

omit hb hkind hlit in
theorem sameReferences : ws.SameReferences b slot v lit := by
  intro id hid heq
  by_contra hmem
  refine hnew (fun hlit => hmem ?_) (heq ▸ hid)
  exact List.mem_map.mpr ⟨lit, by simpa using hlit, rfl⟩

/-- A text block stands for any literal. -/
theorem params_withAttached_text (htext : lit.kind = .ok (.expression .text))
    (hfield : lit.fields.get? "TEXT" = some v) :
    a.params (ws.withAttached b slot lit) (b.withAttached slot lit.id) =
      a.params (ws.withField b slot v) (b.withField slot v) := by
  have hsame := sameReferences hnew
  have hfound : (ws.withAttached b slot lit).find? lit.id = some lit :=
    find?_literal hb hkind hlit htext
  have hvalue : (ws.withAttached b slot lit).value lit = .ok (.text v.shown) :=
    value_of_text htext hfield
  refine params_congr ?_ ?_ a
  · intro other default
    by_cases hother : other = slot
    · rw [hother, numberParam_withAttached_text hfound hvalue, numberParam_withField]
    · exact numberParam_withAttached hkind hsame hb hother default
  · intro default
    by_cases hother : "CHANNEL" = slot
    · rw [hother, textParam_withAttached_text hfound hvalue, textParam_withField]
    · exact textParam_withAttached hkind hsame hb hother default

/-- A number block stands for a literal that is read as a number, where numbers are wanted. -/
theorem params_withAttached_number (hnumber : lit.kind = .ok (.expression .number))
    (hfield : lit.fields.get? "NUM" = some v) (hslot : slot ∈ a.numberSlots) {x : Float}
    (hx : v.number? b.id slot = .ok (some x)) :
    a.params (ws.withAttached b slot lit) (b.withAttached slot lit.id) =
      a.params (ws.withField b slot v) (b.withField slot v) := by
  have hsame := sameReferences hnew
  have hfound : (ws.withAttached b slot lit).find? lit.id = some lit :=
    find?_literal hb hkind hlit hnumber
  have hvalue : (ws.withAttached b slot lit).value lit = .ok (.number x) :=
    value_of_number hnumber hfield hx
  refine params_congr ?_ ?_ a
  · intro other default
    by_cases hother : other = slot
    · rw [hother, numberParam_withAttached_number hfound hvalue, numberParam_withField, hx]
      rfl
    · exact numberParam_withAttached hkind hsame hb hother default
  · intro default
    refine textParam_withAttached hkind hsame hb ?_ default
    rintro rfl
    revert hslot
    cases a <;> decide

/-- **A literal amounts to the same in a field and in a block that is attached instead.**  The block
may be new, or in the workspace already; then it may be attached to other slots as well.  What comes
out is alike, be it a step or an error. -/
theorem fragment_withAttached (opts : Options) :
    (lit.kind = .ok (.expression .text) → lit.fields.get? "TEXT" = some v →
      (ws.withAttached b slot lit).fragment opts (b.withAttached slot lit.id) =
        (ws.withField b slot v).fragment opts (b.withField slot v)) ∧
    (lit.kind = .ok (.expression .number) → lit.fields.get? "NUM" = some v →
      slot ∈ a.numberSlots → ∀ x, v.number? b.id slot = .ok (some x) →
      (ws.withAttached b slot lit).fragment opts (b.withAttached slot lit.id) =
        (ws.withField b slot v).fragment opts (b.withField slot v)) := by
  have hattached : (b.withAttached slot lit.id).kind = .ok (.action a) := hkind
  have hfield : (b.withField slot v).kind = .ok (.action a) := hkind
  constructor
  · intro htext htyped
    have hparams := params_withAttached_text hb hkind hlit hnew htext htyped
    exact fragment_congr hfield hattached rfl hparams opts
  · intro hnumber htyped hslot x hx
    have hparams := params_withAttached_number hb hkind hlit hnew hnumber htyped hslot hx
    exact fragment_congr hfield hattached rfl hparams opts

end Attached

/-- A move of the stage with a number for one of its coordinates. -/
def lifted : Workspace where
  blocks := #[
    { id := "m", type := "move_stage_block", values := .ofList [("Z", "n")] },
    { id := "n", type := "math_number", fields := .ofList [("NUM", .number 5)] }]

/-- A check box for another coordinate is refused under the name of this coordinate, and a text
between blanks is read as the number it spells. -/
theorem fragment_withAttached_lifted :
    let stage : Block := lifted.blocks[0]
    let box : Block := { id := "t", type := "text", fields := .ofList [("TEXT", .flag true)] }
    let padded : Block :=
      { id := "k", type := "math_number", fields := .ofList [("NUM", .text " 2.5 ")] }
    ((lifted.withField stage "X" (.flag true)).fragment {}
          (stage.withField "X" (.flag true))).outcome =
        .error (.rejected (.malformedLiteral "m" "X" "TRUE")) ∧
      (lifted.withAttached stage "X" box).fragment {} (stage.withAttached "X" "t") =
        (lifted.withField stage "X" (.flag true)).fragment {} (stage.withField "X" (.flag true)) ∧
      FieldValue.number? "m" "X" (.text " 2.5 ") = .ok (some 2.5) ∧
      (lifted.withAttached stage "X" padded).fragment {} (stage.withAttached "X" "k") =
        (lifted.withField stage "X" (.text " 2.5 ")).fragment {}
          (stage.withField "X" (.text " 2.5 ")) := by
  intro stage box padded
  have hstage : stage ∈ lifted.blocks := by simp [stage, lifted]
  have hkind : stage.kind = .ok (.action .moveStage) := by decide +kernel
  have hread : FieldValue.number? "m" "X" (.text " 2.5 ") = .ok (some 2.5) := by decide +kernel
  have hbox : ∀ c ∈ lifted.blocks, c.id = box.id → c = box := by decide +kernel
  have hpadded : ∀ c ∈ lifted.blocks, c.id = padded.id → c = padded := by decide +kernel
  have hbox' : box ∉ lifted.blocks →
      box.id ∉ (lifted.withField stage "X" (.flag true)).referenced := by decide +kernel
  have hpadded' : padded ∉ lifted.blocks →
      padded.id ∉ (lifted.withField stage "X" (.text " 2.5 ")).referenced := by decide +kernel
  have htext := (fragment_withAttached hstage hkind hbox hbox' {}).1
    (by decide +kernel) (by decide +kernel)
  have hnumber := (fragment_withAttached hstage hkind hpadded hpadded' {}).2
    (by decide +kernel) (by decide +kernel) (by decide +kernel) 2.5 hread
  exact ⟨by decide +kernel, htext, hread, hnumber⟩

end Workspace

end BlockSteps
