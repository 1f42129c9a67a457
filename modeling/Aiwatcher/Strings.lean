import Aiwatcher.Json

/-!
# Aiwatcher.Strings

Strings as the workspace cuts them (`str::trim`, `str::lines`, `str::split`), records as the
values they are written as, and what turns one into an address: its JSON, and a digest that
is a parameter.
-/

namespace Aiwatcher

/-! ## Cutting -/

/-- `char::is_whitespace`. -/
def isWhitespace (c : Char) : Bool :=
  let n := c.toNat
  (9 ≤ n && n ≤ 13) || n == 32 || n == 0x85 || n == 0xA0 || n == 0x1680 ||
    (0x2000 ≤ n && n ≤ 0x200A) || n == 0x2028 || n == 0x2029 || n == 0x202F || n == 0x205F ||
    n == 0x3000

/-- `char::is_control`. -/
def isControl (c : Char) : Bool :=
  let n := c.toNat
  n ≤ 0x1F || (0x7F ≤ n && n ≤ 0x9F)

/-- `str::trim`. -/
def trim (s : String) : String :=
  String.ofList ((s.toList.dropWhile isWhitespace).reverse.dropWhile isWhitespace).reverse

def isBlank (s : String) : Bool := s.toList.all isWhitespace

/-- `str::split` at a character. -/
def split (s : String) (c : Char) : List String := (s.toList.splitOn c).map String.ofList

/-- `str::lines`: the pieces between newlines, without an empty last one and without the
carriage return in front of a newline. -/
def lines (s : String) : List String :=
  let pieces := split s '\n'
  let whole := pieces.dropLast.map fun piece =>
    if piece.toList.getLast? = some '\r' then String.ofList piece.toList.dropLast else piece
  whole ++ pieces.getLast?.toList.filter fun piece => !piece.isEmpty

/-- `str::len`: the length in bytes. -/
def byteLength (s : String) : Nat := s.utf8ByteSize

/-! ## Records as values -/

/-- An unsigned number. -/
def ofU64 (n : UInt64) : Value := .number (.posInt n)

def ofU32 (n : UInt32) : Value := ofU64 n.toUInt64

/-- A signed number, unsigned where it can be. -/
def ofI64 (n : Int64) : Value :=
  if 0 ≤ n then .number (.posInt n.toUInt64) else .number (.negInt n)

def ofStrings (texts : List String) : Value := .array (texts.map .string)

/-- A field that is left out when there is nothing in it. -/
def optional {α : Type} (key : String) (write : α → Value) : Option α → List (String × Value)
  | none => []
  | some a => [(key, write a)]

def ofMap (entries : BTreeMap String Value) : Value := .object entries.toList

def ofTexts (entries : BTreeMap String String) : Value :=
  .object (entries.toList.map fun entry => (entry.1, .string entry.2))

def onTimeoutValue : OnTimeout → Value
  | .fail => .object [("on", .string "fail")]
  | .skip => .object [("on", .string "skip")]
  | .answer response => .object [("on", .string "answer"), ("response", response)]

/-! ## Addresses -/

/-- What a record is addressed by: the JSON it is written as, and the digest of that. -/
structure Addressing where
  doubles : Doubles
  digest : String → String

namespace Addressing

def json (addressing : Addressing) (value : Value) : String :=
  String.ofList (value.write addressing.doubles)

/-- Doubles are written as doubles are, and no two texts have one digest. -/
structure Faithful (addressing : Addressing) : Prop where
  doubles : addressing.doubles.Lawful
  digest : Function.Injective addressing.digest

theorem Faithful.json {addressing : Addressing} (h : addressing.Faithful) :
    Function.Injective addressing.json := fun _ _ hjson =>
  write_inj h.doubles (String.ofList_injective hjson)

end Addressing

end Aiwatcher
