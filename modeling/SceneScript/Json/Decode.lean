import SceneScript.Json.Basic

/-!
# Decoding JSON

Decoders read typed data out of a value.  Each takes the number of levels of arrays and objects that may
still be opened.  A record is an object, in which unknown fields are passed over and known ones stand
once, or an array of its fields in order.  A choice is the text of its name, or an object with that name
as its only key.

A number is read as a float from as many of its leading digits as fit in 64 bits, scaled once by the
power of ten that is nearest.
-/

namespace SceneScript.Decimal

/-- Appends digits to a number while it stays below `2 ^ 64`; gives the digits that are left, too. -/
def absorb (n : Nat) : List Char → Nat × List Char
  | [] => (n, [])
  | d :: ds =>
    let next := 10 * n + (d.toNat - 48)
    if next < UInt64.size then absorb next ds else (n, d :: ds)

/-- The power of ten as a float. -/
def powerOfTen (n : Nat) : Float := Float.ofScientific 1 false n

/-- The greatest power of ten that is finite as a float. -/
def greatestPower : Nat := 308

/-- `x` divided by `10 ^ n`, in steps that each are finite. -/
def scaleDown (x : Float) (n : Nat) : Float :=
  if n ≤ greatestPower then x / powerOfTen n
  else if x == 0 then x
  else scaleDown (x / powerOfTen greatestPower) (n - greatestPower)
termination_by n
decreasing_by simp only [greatestPower] at *; omega

/-- `x` multiplied by `10 ^ n`, if that is finite. -/
def scaleUp? (x : Float) (n : Nat) : Option Float :=
  if n ≤ greatestPower then
    let y := x * powerOfTen n
    if y.isFinite then some y else none
  else if x == 0 then some x
  else none

/-- The float that a numeral is read as, if it is finite. -/
def Numeral.toFloat? (n : Numeral) : Option Float :=
  let (lead, cut) := absorb 0 n.whole
  let (all, ignored) := absorb lead n.fraction
  let power := (cut.length : Int) - ((n.fraction.length : Int) - ignored.length) + n.exponent.getD 0
  let x := Float.ofNat all
  let scaled := if 0 ≤ power then scaleUp? x power.toNat else some (scaleDown x (-power).toNat)
  scaled.map fun y => if n.negative then -y else y

/-- The integer that a numeral without point and power stands for.  A negative zero is no integer. -/
def Numeral.toInt? (n : Numeral) : Option Int :=
  if n.fraction.isEmpty && n.exponent.isNone then
    let m := ofDigits n.whole
    if n.negative then (if m = 0 then none else some (-(m : Int))) else some m
  else none

end SceneScript.Decimal

namespace SceneScript.Json

/-- How deep arrays and objects may nest in a text that is decoded. -/
def deepest : Nat := 127

/-- Reads data out of a value, which may open that many more levels. -/
abbrev Decoder (α : Type) := Nat → Json → Option α

/-- The results of `f` on all of `xs`, if there are such. -/
def decodeAll {α : Type} (f : Json → Option α) : List Json → Option (List α)
  | [] => some []
  | x :: xs =>
    match f x, decodeAll f xs with
    | some y, some ys => some (y :: ys)
    | _, _ => none

namespace Decode

def text : Decoder String
  | _, .text s => s
  | _, _ => none

def bool : Decoder Bool
  | _, .bool b => some b
  | _, _ => none

def int64 : Decoder Int64
  | _, .number n => n.toInt?.bind Decimal.toInt64?
  | _, _ => none

/-- An integer from 0 to `2 ^ 64 - 1`. -/
def nat64 : Decoder Nat
  | _, .number n =>
    match n.toInt? with
    | some k => if 0 ≤ k ∧ k.toNat < UInt64.size then some k.toNat else none
    | none => none
  | _, _ => none

def float : Decoder Float
  | _, .number n => n.toFloat?
  | _, _ => none

/-- Null, or what `f` reads. -/
def optional {α : Type} (f : Decoder α) : Decoder (Option α)
  | _, .null => some none
  | depth, j => (f depth j).map some

def list {α : Type} (f : Decoder α) : Decoder (List α)
  | depth + 1, .array xs => decodeAll (f depth) xs
  | _, _ => none

end Decode

/-- A choice: its name, and what is written beside it with the levels that this may open. -/
structure Choice where
  name : String
  payload : Option (Nat × Json)

/-- Reads a choice. -/
def choice? : Decoder Choice
  | _, .text (some name) => some ⟨name, none⟩
  | depth + 1, .object [(some name, j)] => some ⟨name, some (depth, j)⟩
  | _, _ => none

/-- Whether nothing is written beside the name, or null. -/
def Choice.isBare (c : Choice) : Bool :=
  match c.payload with
  | none => true
  | some (_, .null) => true
  | _ => false

/-- What `f` reads beside the name. -/
def Choice.payload? {α : Type} (c : Choice) (f : Decoder α) : Option α :=
  match c.payload with
  | some (depth, j) => f depth j
  | none => none

/-- The fields of a record in the order in which they are declared. -/
structure Fields where
  /-- The levels that a field may open. -/
  depth : Nat
  /-- Whether the fields were written with their names. -/
  named : Bool
  values : List (Option Json)

/-- The values that the fields of an object give for a name, of which there may be one. -/
def field? (name : String) (fields : List (Option String × Json)) : Option (Option Json) :=
  match fields.filter fun p => p.1 = some name with
  | [] => some none
  | [p] => some (some p.2)
  | _ => none

/-- Reads the fields with these names. -/
def fields? (names : List String) : Decoder Fields
  | depth + 1, .array xs =>
    if xs.length ≤ names.length then some ⟨depth, false, xs.map some⟩ else none
  | depth + 1, .object fields =>
    if fields.all fun p => p.1.isSome then
      match names.mapM fun name => field? name fields with
      | some values => some ⟨depth, true, values⟩
      | none => none
    else none
  | _, _ => none

namespace Fields

/-- The field at that place, if it is there. -/
def get? (r : Fields) (i : Nat) : Option Json := r.values[i]?.join

/-- A field that must be there. -/
def required {α : Type} (r : Fields) (i : Nat) (f : Decoder α) : Option α :=
  (r.get? i).bind (f r.depth)

/-- A field that may be left out. -/
def withDefault {α : Type} (r : Fields) (i : Nat) (default : α) (f : Decoder α) : Option α :=
  match r.get? i with
  | some j => f r.depth j
  | none => some default

/-- A field that may be null, and may be left out where fields are written with their names. -/
def optional {α : Type} (r : Fields) (i : Nat) (f : Decoder α) : Option (Option α) :=
  match r.get? i with
  | some j => Decode.optional f r.depth j
  | none => if r.named then some none else none

end Fields

end SceneScript.Json
