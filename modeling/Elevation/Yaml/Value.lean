import Elevation.Number

/-! What a YAML document means: nested values without anchors, tags or styles. The fields of an
object have distinct names; names that look like array indices come first, in ascending order, and
the others follow in the order of the document. -/

namespace Elevation.Yaml

inductive Value where
  | null
  | boolean (value : Bool)
  | number (value : Number)
  | string (value : String)
  | symbol (description : String)
  | date
  | bytes (content : List UInt8)
  | array (items : List Value)
  | object (fields : List (String × Value))
  | map (entries : List (Value × Value))
  | set (items : List Value)
  deriving Repr

namespace Value

inductive Kind where
  | null
  | boolean
  | number
  | nan
  | string
  | symbol
  | date
  | array
  | object
  | map
  | set
  deriving DecidableEq, Repr

def Kind.name : Kind → String
  | null => "null"
  | boolean => "boolean"
  | number => "number"
  | nan => "nan"
  | string => "string"
  | symbol => "symbol"
  | date => "date"
  | array => "array"
  | object => "object"
  | map => "map"
  | set => "set"

/-- A number that is no number is a kind of its own, and bytes count as an object. -/
def kind : Value → Kind
  | null => .null
  | boolean _ => .boolean
  | number n => if n.isNaN then .nan else .number
  | string _ => .string
  | symbol _ => .symbol
  | date => .date
  | bytes _ => .object
  | array _ => .array
  | object _ => .object
  | map _ => .map
  | set _ => .set

def indexOf? (name : String) : Option Nat :=
  let digits := name.toList
  if digits = [] ∨ 10 < digits.length ∨ !digits.all Char.isDigit then none
  else if digits.head? = some '0' ∧ 1 < digits.length then none
  else
    let index := digits.foldl (fun n c => 10 * n + (c.toNat - 48)) 0
    if index < 4294967295 then some index else none

/-- A field that is given again keeps its place and takes the new value. -/
def setField (fields : List (String × Value)) (name : String) (value : Value) :
    List (String × Value) :=
  match fields with
  | [] => [(name, value)]
  | (other, old) :: rest =>
    if other = name then (name, value) :: rest else (other, old) :: setField rest name value

def insertIndexed (index : Nat) (field : String × Value) :
    List (Nat × String × Value) → List (Nat × String × Value)
  | [] => [(index, field)]
  | (other, first) :: rest =>
    if index < other then (index, field) :: (other, first) :: rest
    else (other, first) :: insertIndexed index field rest

def orderFields (fields : List (String × Value)) : List (String × Value) :=
  let indexed := fields.foldr (fun field sorted =>
    match indexOf? field.1 with
    | some index => insertIndexed index field sorted
    | none => sorted) []
  indexed.map (·.2) ++ fields.filter fun field => (indexOf? field.1).isNone

def ofEntries (entries : List (String × Value)) : Value :=
  object (orderFields (entries.foldl (fun fields entry => setField fields entry.1 entry.2) []))

/-- The fields of an object. The bytes of a text are fields by their position. -/
def fields? : Value → Option (List (String × Value))
  | object fields => some fields
  | bytes content =>
    some (content.zipIdx.map fun (b, i) => (toString i, number (Number.ofNat b.toNat)))
  | _ => none

def bytesNames : List String :=
  ["readBigUInt64LE", "readBigUInt64BE", "readBigUint64LE", "readBigUint64BE", "readBigInt64LE",
    "readBigInt64BE", "writeBigUInt64LE", "writeBigUInt64BE", "writeBigUint64LE",
    "writeBigUint64BE", "writeBigInt64LE", "writeBigInt64BE",
    "readUIntLE", "readUInt32LE", "readUInt16LE", "readUInt8", "readUIntBE", "readUInt32BE",
    "readUInt16BE", "readUintLE", "readUint32LE", "readUint16LE", "readUint8", "readUintBE",
    "readUint32BE", "readUint16BE", "readIntLE", "readInt32LE", "readInt16LE", "readInt8",
    "readIntBE", "readInt32BE", "readInt16BE",
    "writeUIntLE", "writeUInt32LE", "writeUInt16LE", "writeUInt8", "writeUIntBE", "writeUInt32BE",
    "writeUInt16BE", "writeUintLE", "writeUint32LE", "writeUint16LE", "writeUint8", "writeUintBE",
    "writeUint32BE", "writeUint16BE", "writeIntLE", "writeInt32LE", "writeInt16LE", "writeInt8",
    "writeIntBE", "writeInt32BE", "writeInt16BE",
    "readFloatLE", "readFloatBE", "readDoubleLE", "readDoubleBE", "writeFloatLE", "writeFloatBE",
    "writeDoubleLE", "writeDoubleBE",
    "asciiSlice", "base64Slice", "base64urlSlice", "latin1Slice", "hexSlice", "ucs2Slice",
    "utf8Slice", "asciiWrite", "base64Write", "base64urlWrite", "latin1Write", "hexWrite",
    "ucs2Write", "utf8Write",
    "parent", "offset", "copy", "toString", "equals", "inspect", "compare", "lastIndexOf",
    "indexOf", "includes", "fill", "write", "toJSON", "subarray", "slice", "swap16", "swap32",
    "swap64", "toLocaleString"]

def names (value : Value) : List String :=
  (value.fields?.getD []).map (·.1) ++
    match value with
    | bytes _ => bytesNames
    | _ => []

end Value

end Elevation.Yaml
