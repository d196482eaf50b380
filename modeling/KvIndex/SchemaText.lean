import Mathlib.Data.List.DropRight
import KvIndex.Schema

/-! The schema file of the offline builder (`tools/offline/src/offline_artifact_builder.cc`): the
line parser of `ParseSchemaFile` and the text that `WriteSchemaFile` prints. A file is the bytes
it holds. -/
namespace KvIndex
namespace Offline

open Base

def ascii (text : String) : Bytes := text.toList.map fun c => UInt8.ofNat c.toNat

def display (bytes : Bytes) : String := String.ofList (bytes.map fun byte => Char.ofNat byte.toNat)

def newline : UInt8 := 10

def isBlank (c : UInt8) : Bool := c == 32 || c == 9 || c == 13

def trim (text : Bytes) : Bytes := (text.dropWhile isBlank).rdropWhile isBlank

/-- `StripComment`, with the two marks of its loop. -/
def stripFrom (inSingleQuote inDoubleQuote : Bool) : Bytes → Bytes
  | [] => []
  | c::rest =>
    if c == 39 && !inDoubleQuote then c::stripFrom (!inSingleQuote) inDoubleQuote rest
    else if c == 34 && !inSingleQuote then c::stripFrom inSingleQuote (!inDoubleQuote) rest
    else if c == 35 && !inSingleQuote && !inDoubleQuote then []
    else c::stripFrom inSingleQuote inDoubleQuote rest

def stripComment (line : Bytes) : Bytes := stripFrom false false line

def isQuoted (value : Bytes) : Bool :=
  value.length ≥ 2 && ((value.head? == some 34 && value.getLast? == some 34) ||
    (value.head? == some 39 && value.getLast? == some 39))

def unquote (value : Bytes) : Bytes := if isQuoted value then value.tail.dropLast else value

def parseKeyValue (text : Bytes) : StatusOr (Bytes×Bytes) :=
  match text.dropWhile (· != 58) with
  | [] => .error (.invalidArgument "schema line is not a key-value pair")
  | _::rest => do
    let key := trim (text.takeWhile (· != 58))
    let value := unquote (trim rest)
    failIf key.isEmpty (.invalidArgument "schema key is empty")
    return (key,value)

def decimal (n : ℕ) : Bytes :=
  if n = 0 then [48] else (Nat.digits 10 n).reverse.map fun d => UInt8.ofNat (48+d)

/-- `ParseUnsigned` for a type whose greatest value is `limit`; `from_chars` takes digits only. -/
def parseUnsigned (limit : ℕ) (text name : Bytes) : StatusOr ℕ := do
  failIf text.isEmpty (.invalidArgument (display name++" is empty"))
  failIf (!text.all isDigit || decimalValue text > limit)
    (.invalidArgument ("invalid unsigned integer for "++display name))
  return decimalValue text

def parseBool (text : Bytes) : StatusOr Bool :=
  if text = ascii "true" then .ok true
  else if text = ascii "false" then .ok false
  else .error (.invalidArgument "invalid boolean value")

def parseType (text : Bytes) : StatusOr FieldType :=
  if text = ascii "int8" then .ok .kInt8
  else if text = ascii "int32" then .ok .kInt32
  else if text = ascii "int64" then .ok .kInt64
  else if text = ascii "uint64" then .ok .kUInt64
  else if text = ascii "bool" then .ok .kBool
  else if text = ascii "string" then .ok .kString
  else .error (.invalidArgument "unknown field type")

def fieldTypeName : FieldType → Bytes
  | .kInt8 => ascii "int8"
  | .kInt32 => ascii "int32"
  | .kInt64 => ascii "int64"
  | .kUInt64 => ascii "uint64"
  | .kBool => ascii "bool"
  | .kString => ascii "string"
  | .unnamed _ _ => ascii "unknown"

def fieldEncodingConfigName : FieldEncoding → Bytes
  | .kFixed => ascii "fixed"
  | .kArena => ascii "arena"
  | .kDictionary | .kListDictionary => ascii "dictionary"
  | .kElementDictionary => ascii "element_dictionary"
  | .unnamed _ _ => ascii "unknown"

def parseFieldEncoding (name : Bytes) (isList : Bool) (type : FieldType) : StatusOr FieldEncoding :=
  if name = ascii "fixed" then
    if !isList && type != .kString then .ok .kFixed
    else .error (.invalidArgument
      "fixed encoding is only valid for scalar numeric and bool fields")
  else if name = ascii "arena" then
    if isList || type == .kString then .ok .kArena
    else .error (.invalidArgument "arena encoding is only valid for strings and lists")
  else if name = ascii "dictionary" then
    if isList then .ok .kListDictionary
    else if type = .kString then .ok .kDictionary
    else .error (.invalidArgument
      "dictionary encoding is only valid for scalar strings and lists")
  else if name = ascii "element_dictionary" then
    if isList && type == .kString then .ok .kElementDictionary
    else .error (.invalidArgument
      "element_dictionary encoding is only valid for list<string> fields")
  else .error (.invalidArgument "unknown field encoding")

structure ParsedField where
  field : FieldSpec := {}
  encodingName : Bytes := []
  hasFieldId : Bool := false
  hasName : Bool := false
  hasType : Bool := false
  hasIsList : Bool := false
  hasNullable : Bool := false
  hasEncoding : Bool := false
  deriving DecidableEq

structure ParsedSchemaConfig where
  schemaVersion : UInt64 := 0
  hasSchemaVersion : Bool := false
  shardCount : Option UInt32 := none
  hashSeed : Option UInt64 := none
  hashVersion : Option UInt32 := none
  primaryKeyName : Bytes := []
  primaryKeyType : FieldType := .kUInt64
  hasPrimaryKeyName : Bool := false
  hasPrimaryKeyType : Bool := false
  fields : List FieldSpec := []
  deriving DecidableEq

def applyTopLevelKey (config : ParsedSchemaConfig) (key value : Bytes) :
    StatusOr ParsedSchemaConfig :=
  if key = ascii "schema_version" then do
    let parsed ← parseUnsigned uint64Max value key
    return { config with schemaVersion := UInt64.ofNat parsed,hasSchemaVersion := true }
  else if key = ascii "shard_count" then do
    let parsed ← parseUnsigned uint32Max value key
    return { config with shardCount := some (UInt32.ofNat parsed) }
  else if key = ascii "hash_seed" then do
    let parsed ← parseUnsigned uint64Max value key
    return { config with hashSeed := some (UInt64.ofNat parsed) }
  else if key = ascii "hash_version" then do
    let parsed ← parseUnsigned uint32Max value key
    return { config with hashVersion := some (UInt32.ofNat parsed) }
  else .error (.invalidArgument ("unsupported top-level schema key: "++display key))

def applyPrimaryKey (config : ParsedSchemaConfig) (key value : Bytes) :
    StatusOr ParsedSchemaConfig :=
  if key = ascii "name" then
    .ok { config with primaryKeyName := value,hasPrimaryKeyName := true }
  else if key = ascii "type" then do
    let type ← parseType value
    return { config with primaryKeyType := type,hasPrimaryKeyType := true }
  else .error (.invalidArgument ("unsupported primary_key schema key: "++display key))

def applyFieldKey (pending : ParsedField) (key value : Bytes) : StatusOr ParsedField :=
  if key = ascii "field_id" then do
    let parsed ← parseUnsigned uint32Max value key
    return { pending with
      field := { pending.field with fieldId := UInt32.ofNat parsed },hasFieldId := true }
  else if key = ascii "name" then
    .ok { pending with field := { pending.field with name := value },hasName := true }
  else if key = ascii "type" then do
    let type ← parseType value
    return { pending with field := { pending.field with type },hasType := true }
  else if key = ascii "is_list" then do
    let parsed ← parseBool value
    return { pending with field := { pending.field with isList := parsed },hasIsList := true }
  else if key = ascii "nullable" then do
    let parsed ← parseBool value
    return { pending with field := { pending.field with nullable := parsed },hasNullable := true }
  else if key = ascii "encoding" then
    .ok { pending with encodingName := value,hasEncoding := true }
  else .error (.invalidArgument ("unsupported field schema key: "++display key))

inductive Section
  | kTopLevel | kPrimaryKey | kFields
  deriving DecidableEq

structure ParseState where
  config : ParsedSchemaConfig := {}
  inSection : Section := .kTopLevel
  pendingField : ParsedField := {}
  hasPendingField : Bool := false
  lineNumber : ℕ := 0
  deriving DecidableEq

def flushParsedField (state : ParseState) : StatusOr ParseState :=
  if !state.hasPendingField then .ok state
  else do
    let pending := state.pendingField
    failIf (!pending.hasFieldId || !pending.hasName || !pending.hasType || !pending.hasIsList ||
        !pending.hasNullable || !pending.hasEncoding)
      (.invalidArgument "schema field is missing required keys")
    let encoding ← parseFieldEncoding pending.encodingName pending.field.isList pending.field.type
    return { state with
      config := { state.config with fields := state.config.fields++[{ pending.field with encoding }] }
      pendingField := {}
      hasPendingField := false }

def onLine {α : Type} (what : String) (lineNumber : ℕ) (result : StatusOr α) : StatusOr α :=
  result.mapError fun status =>
    .invalidArgument (what++" "++toString lineNumber++": "++status.message)

def parseTopLevelLine (state : ParseState) (trimmed : Bytes) : StatusOr ParseState := do
  let state ← flushParsedField state
  if trimmed = ascii "primary_key:" then return { state with inSection := .kPrimaryKey }
  else if trimmed = ascii "fields:" then return { state with inSection := .kFields }
  else
    let (key,value) ← onLine "invalid schema line" state.lineNumber (parseKeyValue trimmed)
    let config ← onLine "invalid schema line" state.lineNumber
      (applyTopLevelKey state.config key value)
    return { state with inSection := .kTopLevel,config }

def parsePrimaryKeyLine (state : ParseState) (trimmed : Bytes) : StatusOr ParseState := do
  let (key,value) ← onLine "invalid primary_key line" state.lineNumber (parseKeyValue trimmed)
  let config ← onLine "invalid schema line" state.lineNumber
    (applyPrimaryKey state.config key value)
  return { state with config }

def parseFieldKey (state : ParseState) (text : Bytes) : StatusOr ParseState := do
  let (key,value) ← onLine "invalid field line" state.lineNumber (parseKeyValue text)
  let pendingField ← onLine "invalid schema line" state.lineNumber
    (applyFieldKey state.pendingField key value)
  return { state with pendingField }

def parseFieldLine (state : ParseState) (trimmed : Bytes) : StatusOr ParseState :=
  if trimmed.take 2 = ascii "- " then do
    let state ← flushParsedField state
    let state := { state with hasPendingField := true }
    let firstKey := trim (trimmed.drop 2)
    if firstKey.isEmpty then return state
    else parseFieldKey state firstKey
  else do
    failIf (!state.hasPendingField)
      (.invalidArgument "field property appeared before a field item")
    parseFieldKey state trimmed

def parseLine (state : ParseState) (rawLine : Bytes) : StatusOr ParseState :=
  let state := { state with lineNumber := state.lineNumber+1 }
  let withoutComment := stripComment rawLine
  let trimmed := trim withoutComment
  let indent := (withoutComment.takeWhile (· == 32)).length
  if trimmed.isEmpty then .ok state
  else if indent = 0 then parseTopLevelLine state trimmed
  else
    match state.inSection with
    | .kPrimaryKey => parsePrimaryKeyLine state trimmed
    | .kFields => parseFieldLine state trimmed
    | .kTopLevel => .error (.invalidArgument "schema line is in an unknown section")

/-- The lines that `std::getline` hands out, after `line` bytes of the current one. -/
def getLinesFrom (line : Bytes) : Bytes → List Bytes
  | [] => if line.isEmpty then [] else [line]
  | c::rest => if c = newline then line::getLinesFrom [] rest else getLinesFrom (line++[c]) rest

def getLines (text : Bytes) : List Bytes := getLinesFrom [] text

/-- `ParseSchemaFile` on the text of a file that could be opened. -/
def parseSchemaFile (text : Bytes) : StatusOr ParsedSchemaConfig := do
  let state ← (getLines text).foldlM parseLine {}
  let state ← flushParsedField state
  let config := state.config
  failIf (!config.hasSchemaVersion) (.invalidArgument "schema_version is required")
  failIf (!config.hasPrimaryKeyName || !config.hasPrimaryKeyType)
    (.invalidArgument "primary_key name and type are required")
  failIf (config.primaryKeyType != .kUInt64) (.invalidArgument "primary_key type must be uint64")
  failIf config.fields.isEmpty (.invalidArgument "schema must contain at least one field")
  return config

def boolName (value : Bool) : Bytes := if value then ascii "true" else ascii "false"

/-- The lines that `WriteSchemaFile` prints for a field. -/
def fieldLines (field : FieldSpec) : List Bytes :=
  [ascii "  - field_id: "++decimal field.fieldId.toNat,
    ascii "    name: "++field.name,
    ascii "    type: "++fieldTypeName field.type,
    ascii "    is_list: "++boolName field.isList,
    ascii "    nullable: "++boolName field.nullable,
    ascii "    encoding: "++fieldEncodingConfigName field.encoding,
    []]

def headerLines (config : ParsedSchemaConfig) (schemaVersion : UInt64) (shardCount : UInt32)
    (hashSeed : UInt64) (hashVersion : UInt32) : List Bytes :=
  [ascii "schema_version: "++decimal schemaVersion.toNat,
    ascii "shard_count: "++decimal shardCount.toNat,
    ascii "hash_seed: "++decimal hashSeed.toNat,
    ascii "hash_version: "++decimal hashVersion.toNat,
    [],
    ascii "primary_key:",
    ascii "  name: "++config.primaryKeyName,
    ascii "  type: uint64",
    [],
    ascii "fields:"]

/-- The text of `WriteSchemaFile`; every line ends with a newline. -/
def writeSchemaFile (config : ParsedSchemaConfig) (schemaVersion : UInt64) (shardCount : UInt32)
    (hashSeed : UInt64) (hashVersion : UInt32) : Bytes :=
  (headerLines config schemaVersion shardCount hashSeed hashVersion++
    config.fields.flatMap fieldLines).flatMap fun line => line++[newline]

end Offline
end KvIndex
