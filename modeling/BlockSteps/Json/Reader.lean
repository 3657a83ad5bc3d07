import BlockSteps.Dict
import BlockSteps.Json.Printer
import BlockSteps.Json.Scanner

/-!
# Reading drafts for shape

A `Reader α` looks at a draft, front to back, and gives either what the draft says as an `α` or the
first thing that is wrong with it.  The readers below are the shapes that the formats of this
library are made of; a format states its records as data (`Record`) and leaves the order of the
checks to `Record.read`.

**Records.**  An object is read member by member.  A member with a known name is read by the field
of that name, a second one under the same name is refused, and a member with an unknown name is
skipped.  Only at the end of the object are missing members noticed.  An array is read as a record
too: its items are the fields in their order.

**Alternatives.**  A value that may be of several kinds is read in full first, whatever it is, and
then looked at.  Only there does nesting count: a value may be nested `depthLimit` levels deep,
counted from the outermost value of the text.
-/

namespace BlockSteps.Json

/-- What is wrong with a text that was to be read. -/
inductive ReadError where
  /-- The text is not JSON, or not JSON that can be read at this place. -/
  | malformed
  /-- The text ends inside a value. -/
  | truncated
  /-- An object lacks a member. -/
  | missingField (name : String)
  /-- An object has a member twice. -/
  | duplicateField (name : String)
  /-- A value of another kind was wanted. -/
  | wrongKind (found : Found) (wanted : String)
  /-- A whole number was found, but not one of the wanted ones. -/
  | wrongValue (found : Int) (wanted : String)
  /-- An array is too short for the fields of a record. -/
  | wrongLength (length : Nat) (record : String) (fields : Nat)
  /-- A string is none of the words that were wanted. -/
  | unknownWord (found : String) (words : List String)
  /-- A value is of none of the kinds that were wanted. -/
  | noAlternative (wanted : String)

/-- The error of a fault in the text. -/
def Trouble.error : Trouble → ReadError
  | .malformed => .malformed
  | .truncated => .truncated

/-- The value as an error message names it. -/
def Found.describe : Found → String
  | .null => "null"
  | .boolean true => "boolean `true`"
  | .boolean false => "boolean `false`"
  | .integer n => "integer `" ++ String.ofList (Decimal.intChars n) ++ "`"
  | .real x => "floating point `" ++ Decimal.Format.document.write x ++ "`"
  | .text s => "string " ++ Text.quoted s
  | .sequence => "sequence"
  | .map => "map"

/-- Words between backticks, joined as a choice. -/
def choiceOf : List String → String
  | [] => ""
  | [w] => "`" ++ w ++ "`"
  | w :: rest => "`" ++ w ++ "` or " ++ choiceOf rest

/-- What is wrong with the shape of a text; nothing is said about a text that is not JSON. -/
def ReadError.message? : ReadError → Option String
  | .malformed => none
  | .truncated => none
  | .missingField name => some ("missing field `" ++ name ++ "`")
  | .duplicateField name => some ("duplicate field `" ++ name ++ "`")
  | .wrongKind found wanted => some ("invalid type: " ++ found.describe ++ ", expected " ++ wanted)
  | .wrongValue found wanted =>
    some ("invalid value: " ++ (Found.integer found).describe ++ ", expected " ++ wanted)
  | .wrongLength length record fields =>
    let elements := if fields = 1 then " element" else " elements"
    some ("invalid length " ++ String.ofList (Decimal.natChars length) ++ ", expected struct " ++
      record ++ " with " ++ String.ofList (Decimal.natChars fields) ++ elements)
  | .unknownWord found words =>
    some ("unknown variant `" ++ found ++ "`, expected " ++ choiceOf words)
  | .noAlternative wanted => some ("data did not match any variant of untagged enum " ++ wanted)

/-- A way to read a value of type `α` off a draft. -/
abbrev Reader (α : Type) := Draft → Except ReadError α

variable [Rounding]

/-! ## Ends, skipped values and values of the wrong kind -/

/-- Pass the end of an array or object that is read. -/
def passEnd (stop : Option Fault) : Except ReadError Unit :=
  match stop with
  | none => .ok ()
  | some f => .error f.reading.error

mutual

/-- Skip a value. -/
def Draft.skip : Draft → Except ReadError Unit
  | .array items stop => do
    skipItems items
    match stop with
    | none => pure ()
    | some f => throw f.skipping.error
  | .object members stop => do
    skipMembers members
    match stop with
    | none => pure ()
    | some f => throw f.skipping.error
  | .fault f => .error f.skipping.error
  | .null => .ok ()
  | .boolean _ => .ok ()
  | .number _ => .ok ()
  | .text _ => .ok ()

/-- Skip the items of an array. -/
def skipItems : List Draft → Except ReadError Unit
  | [] => .ok ()
  | item :: rest => do
    item.skip
    skipItems rest

/-- Skip the members of an object. -/
def skipMembers : List (Option String × Draft) → Except ReadError Unit
  | [] => .ok ()
  | (_, value) :: rest => do
    value.skip
    skipMembers rest

end

/-- The error of a place where something else was wanted. -/
def refusal (wanted : String) : Except Trouble Found → ReadError
  | .ok found => .wrongKind found wanted
  | .error t => t.error

/-- The error of a value that is of another kind than the wanted one. -/
def Draft.refuse (wanted : String) (d : Draft) : ReadError := refusal wanted d.found

/-! ## Values of any kind -/

/-- How deep a value may nest where it is read in full. -/
def depthLimit : Nat := 128

/-- How many levels may still open; none where nesting is free. -/
abbrev Room := Option Nat

/-- Open one level. -/
def Room.open (room : Room) : Except ReadError Room :=
  match room with
  | none => .ok none
  | some n => if n ≤ 1 then .error .malformed else .ok (some (n - 1))

mutual

/-- Read a value of any kind.  Of two members of one name the later stays, and the members come in
the order of their names. -/
def Draft.json (room : Room) : Reader Json
  | .null => .ok .null
  | .boolean b => .ok (.boolean b)
  | .number n =>
    match n.value? with
    | some j => .ok j
    | none => .error .malformed
  | .text (some s) => .ok (.text s)
  | .text none => .error .malformed
  | .array items stop => do
    let inner ← room.open
    let items ← jsonItems inner items
    passEnd stop
    pure (.array items)
  | .object members stop => do
    let inner ← room.open
    let members ← jsonMembers inner members
    passEnd stop
    pure (.object (Dict.ofList members).entries)
  | .fault f => .error f.reading.error

/-- Read the items of an array, each of any kind. -/
def jsonItems (room : Room) : List Draft → Except ReadError (List Json)
  | [] => .ok []
  | item :: rest => do
    let j ← item.json room
    let js ← jsonItems room rest
    pure (j :: js)

/-- Read the members of an object, each of any kind. -/
def jsonMembers (room : Room) :
    List (Option String × Draft) → Except ReadError (List (String × Json))
  | [] => .ok []
  | (none, _) :: _ => .error .malformed
  | (some name, value) :: rest => do
    let j ← value.json room
    let js ← jsonMembers room rest
    pure ((name, j) :: js)

end

/-! ## Values of one kind -/

/-- A string. -/
def readText : Reader String
  | .text (some s) => .ok s
  | d => .error (d.refuse "a string")

/-- A number of any kind, as a double. -/
def readNumber : Reader Float
  | .number n =>
    match n.value? with
    | some (.integer i) => .ok (Float.ofInt i)
    | some (.real x) => .ok x
    | _ => .error .malformed
  | d => .error (d.refuse "f64")

/-- A number without sign, point and exponent, below `2 ^ 64`. -/
def readCount : Reader Nat
  | .number n =>
    match n.value? with
    | some (.integer i) => if i < 0 then .error (.wrongValue i "usize") else .ok i.toNat
    | _ => .error ((Draft.number n).refuse "usize")
  | d => .error (d.refuse "usize")

/-- A value, or `null` for none. -/
def readOptional {α : Type} (read : Reader α) : Reader (Option α)
  | .null => .ok none
  | d => (read d).map some

/-- The items of a sequence. -/
def readItems {α : Type} (read : Reader α) : List Draft → Except ReadError (List α)
  | [] => .ok []
  | item :: rest => do
    let x ← read item
    let xs ← readItems read rest
    pure (x :: xs)

/-- A sequence. -/
def readList {α : Type} (read : Reader α) : Reader (List α)
  | .array items stop => do
    let xs ← readItems read items
    passEnd stop
    pure xs
  | d => .error (d.refuse "a sequence")

/-- The members of a map, in the order of the text. -/
def readEntries {α : Type} (read : Reader α) :
    List (Option String × Draft) → Except ReadError (List (String × α))
  | [] => .ok []
  | (none, _) :: _ => .error .malformed
  | (some name, value) :: rest => do
    let x ← read value
    let xs ← readEntries read rest
    pure ((name, x) :: xs)

/-- A map: any names, the later of two members of one name. -/
def readDict {α : Type} (read : Reader α) : Reader (Dict α)
  | .object members stop => do
    let entries ← readEntries read members
    passEnd stop
    pure (Dict.ofList entries)
  | d => .error (d.refuse "a map")

/-- One of a few words, each standing for a value. -/
def wordValue {α : Type} (words : List (String × α)) (found : String) : Except ReadError α :=
  match Dict.find? found words with
  | some x => .ok x
  | none => .error (.unknownWord found (words.map Prod.fst))

/-- The name under which messages speak of a word that is wanted. -/
def wantedWord : String := "variant identifier"

/-- One of a few words: a string, or an object with the word as the name of its only member,
which is `null`. -/
def readWord {α : Type} (words : List (String × α)) : Reader α
  | .text (some s) => wordValue words s
  | .text none => .error .malformed
  | .object members stop =>
    match members with
    | [] => .error (match stop with | some f => refusal wantedWord f.choosing | none => .malformed)
    | (none, _) :: _ => .error .malformed
    | (some name, value) :: rest => do
      let x ← wordValue words name
      match value with
      | .null => pure ()
      | d => throw (d.refuse "unit")
      match rest, stop with
      | [], none => pure x
      | [], some f => throw (refusal wantedWord f.choosing)
      | _ :: _, _ => throw .malformed
  | .fault f => .error (refusal wantedWord f.choosing)
  | _ => .error .malformed

/-! ## Records -/

/-- One field of a record: how it is read, and what it changes in the record read so far. -/
structure Field (α : Type) where
  /-- The name of the member. -/
  name : String
  /-- Whether the record is refused without it. -/
  required : Bool
  /-- Read the value and say how the record takes it. -/
  take : Draft → Except ReadError (α → α)

/-- A field whose value `set` puts into the record. -/
def Field.of {α β : Type} (name : String) (required : Bool) (read : Reader β)
    (set : β → α → α) : Field α where
  name := name
  required := required
  take := fun d => (read d).map set

/-- A record: its name in messages, its fields in order, and what it is before any is read. -/
structure Record (α : Type) where
  /-- The name in messages. -/
  name : String
  /-- The fields, in the order in which an array lists them. -/
  fields : List (Field α)
  /-- The record whose every field is left out. -/
  blank : α

/-- Refuse an object that lacks a required field; of several the first in the order of fields. -/
def requireFields {α : Type} (given : List String) : List (Field α) → Except ReadError Unit
  | [] => .ok ()
  | f :: rest =>
    if f.required && !given.contains f.name then .error (.missingField f.name)
    else requireFields given rest

/-- Read the members of an object into a record, knowing which names were already given. -/
def readMembers {α : Type} (fields : List (Field α)) (stop : Option Fault) :
    List (Option String × Draft) → List String → α → Except ReadError α
  | [], given, r => do
    passEnd stop
    requireFields given fields
    pure r
  | (none, _) :: _, _, _ => .error .malformed
  | (some name, value) :: rest, given, r =>
    match fields.find? (fun f => f.name == name) with
    | none => do
      value.skip
      readMembers fields stop rest given r
    | some f =>
      if given.contains name then .error (.duplicateField name)
      else do
        let change ← f.take value
        readMembers fields stop rest (name :: given) (change r)

/-- The first required field behind the items of an array decides what length is wrong. -/
def requireItems {α : Type} (record : Record α) (length : Nat) :
    List (Field α) → Except ReadError Unit
  | [] => .ok ()
  | f :: rest =>
    if f.required then .error (.wrongLength length record.name record.fields.length)
    else requireItems record (length + 1) rest

/-- Read the items of an array into a record, `done` of which are read. -/
def readPositions {α : Type} (record : Record α) (stop : Option Fault) :
    Nat → List (Field α) → List Draft → α → Except ReadError α
  | _, [], [], r => do
    passEnd stop
    pure r
  | _, [], _ :: _, _ => .error .malformed
  | done, fields, [], r => do
    passEnd stop
    requireItems record done fields
    pure r
  | done, f :: fields, item :: rest, r => do
    let change ← f.take item
    readPositions record stop (done + 1) fields rest (change r)

/-- A record, as an object or as an array of its fields. -/
def Record.read {α : Type} (record : Record α) : Reader α
  | .object members stop => readMembers record.fields stop members [] record.blank
  | .array items stop => readPositions record stop 0 record.fields items record.blank
  | d => .error (d.refuse ("struct " ++ record.name))

/-! ## Texts -/

/-- Read a text: its one value, and nothing but blanks behind it. -/
def readFrom {α : Type} (read : Reader α) (text : String) : Except ReadError α :=
  match Draft.ofText text with
  | (d, ended) => do
    let x ← read d
    if ended then pure x else throw .malformed

end BlockSteps.Json
