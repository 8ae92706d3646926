import ThirdPartDemo.Library.Outline
import ThirdPartDemo.RapidJson.Dtoa

/-!
# RapidJSON — the writers

`Writer` of `rapidjson/writer.h` and `PrettyWriter` of `rapidjson/prettywriter.h`, over a
string buffer. Both are handlers: the level stack says how many values the open arrays
and objects have so far, and with that what goes in front of the next one.

The two have the same handler functions but for the text in front of a value and in
front of the end of an array or object, which is their `Layout`.

Where an assertion of the source fails there is no result (`none`).
-/

namespace RapidJson

open Library

/-- `Level` -/
structure Level where
  valueCount : Nat
  inArray : Bool

/-- `Writer` -/
structure Writer where
  os_ : Bytes := []
  level_stack_ : List Level := []      -- top first
  maxDecimalPlaces_ : Int := 324
  hasRoot_ : Bool := false

/-- What is put in front of a value, by the depth and the level that it is on, and in
front of the end of an array or object that is not empty, by the depth around it. -/
structure Layout where
  before : Nat → Level → Bytes
  beforeEnd : Nat → Bool → Bytes

-- ---------------------------------------------------------------------------
-- Layouts
-- ---------------------------------------------------------------------------

/-- `Writer::Prefix` -/
def Writer.layout : Layout where
  before _ level :=
    if level.valueCount > 0 then
      if level.inArray then [','.toUInt8]
      else if level.valueCount % 2 = 0 then [','.toUInt8]
      else [':'.toUInt8]
    else []
  beforeEnd _ _ := []

/-- The settings of a `PrettyWriter`. `SetIndent` asserts that it indents with white
space. -/
structure PrettyWriter where
  indentChar_ : UInt8 := ' '.toUInt8
  indentCharCount_ : Nat := 4
  kFormatSingleLineArray : Bool := false
  isSpace : isJsonSpace indentChar_ = true := by rfl

namespace PrettyWriter

variable (settings : PrettyWriter)

/-- `WriteIndent` -/
def WriteIndent (depth : Nat) : Bytes :=
  List.replicate (depth * settings.indentCharCount_) settings.indentChar_

/-- `PrettyPrefix`, and what `EndObject` and `EndArray` put in front of the bracket -/
def layout : Layout where
  before depth level :=
    if level.inArray then
      (if level.valueCount > 0 then
        ','.toUInt8 :: (if settings.kFormatSingleLineArray then [' '.toUInt8] else [])
      else []) ++
        (if settings.kFormatSingleLineArray then []
        else '\n'.toUInt8 :: settings.WriteIndent depth)
    else
      (if level.valueCount > 0 then
        if level.valueCount % 2 = 0 then [','.toUInt8, '\n'.toUInt8] else [':'.toUInt8, ' '.toUInt8]
      else ['\n'.toUInt8]) ++
        (if level.valueCount % 2 = 0 then settings.WriteIndent depth else [])
  beforeEnd depth inArray :=
    if inArray ∧ settings.kFormatSingleLineArray then []
    else '\n'.toUInt8 :: settings.WriteIndent depth

end PrettyWriter

-- ---------------------------------------------------------------------------
-- Values
-- ---------------------------------------------------------------------------

namespace Writer

/-- The table `escape` of `WriteString`. -/
def escape (c : UInt8) : UInt8 :=
  if c = '"'.toUInt8 then '"'.toUInt8
  else if c = '\\'.toUInt8 then '\\'.toUInt8
  else if c = 0x08 then 'b'.toUInt8
  else if c = 0x09 then 't'.toUInt8
  else if c = 0x0A then 'n'.toUInt8
  else if c = 0x0C then 'f'.toUInt8
  else if c = 0x0D then 'r'.toUInt8
  else if c < 0x20 then 'u'.toUInt8
  else 0

/-- The table `hexDigits`. -/
def hexDigits (i : UInt8) : UInt8 := if i < 10 then '0'.toUInt8 + i else 'A'.toUInt8 + (i - 10)

/-- What `WriteString` puts for a character. -/
def writeChar (c : UInt8) : Bytes :=
  if escape c ≠ 0 then
    '\\'.toUInt8 :: escape c ::
      (if escape c = 'u'.toUInt8 then
        ['0'.toUInt8, '0'.toUInt8, hexDigits (c >>> 4), hexDigits (c &&& 0xF)]
      else [])
  else [c]

/-- `WriteString` -/
def WriteString (str : Bytes) : Bytes := '"'.toUInt8 :: (str.flatMap writeChar ++ ['"'.toUInt8])

variable (Grisu2 : BitVec 64 → Bytes × Int)

/-- `WriteDouble` refuses what is no number. -/
def refuses : JsonNumber → Bool
  | .double d => Double.IsNanOrInf d.toBitVec
  | _ => false

/-- `WriteInt`, `WriteUint`, `WriteInt64`, `WriteUint64` and `WriteDouble`, of a double that
is not refused. -/
def writeNumber (maxDecimalPlaces_ : Int) : JsonNumber → Option Bytes
  | .int i => some (i32toa i)
  | .uint u => some (u32toa u)
  | .int64 i64 => some (i64toa i64)
  | .uint64 u64 => some (u64toa u64)
  | .double d => dtoa Grisu2 d.toBitVec maxDecimalPlaces_

/-- `Prefix` and `PrettyPrefix`: also whether the value may be a name. -/
def Prefix (layout : Layout) (isString : Bool) (w : Writer) : Option Writer :=
  match w.level_stack_ with
  | level :: levels =>
    if !level.inArray ∧ level.valueCount % 2 = 0 ∧ !isString then none
    else
      some { w with
        os_ := w.os_ ++ layout.before (levels.length + 1) level
        level_stack_ := { level with valueCount := level.valueCount + 1 } :: levels }
  | [] => if w.hasRoot_ then none else some { w with hasRoot_ := true }

/-- `Put`, a text. -/
def put (w : Writer) (text : Bytes) : Writer := { w with os_ := w.os_ ++ text }

/-- `StartObject` and `StartArray` -/
def start (layout : Layout) (inArray : Bool) (bracket : UInt8) (w : Writer) :
    Option (Bool × Writer) :=
  (w.Prefix layout false).map fun w =>
    (true, { w.put [bracket] with level_stack_ := ⟨0, inArray⟩ :: w.level_stack_ })

/-- `EndObject` and `EndArray` -/
def finish (layout : Layout) (inArray : Bool) (bracket : UInt8) (w : Writer) :
    Option (Bool × Writer) :=
  match w.level_stack_ with
  | [] => none
  | level :: levels =>
    if level.inArray ≠ inArray then none
    else
      let gap := if level.valueCount = 0 then [] else layout.beforeEnd levels.length inArray
      some (true, { w.put (gap ++ [bracket]) with level_stack_ := levels })

/-- The handler functions. -/
def handle (layout : Layout) (w : Writer) : SaxEvent → Option (Bool × Writer)
  | .null => (w.Prefix layout false).map fun w => (true, w.put (ascii "null"))
  | .bool b => (w.Prefix layout false).map fun w =>
    (true, w.put (if b then ascii "true" else ascii "false"))
  | .number n => (w.Prefix layout false).bind fun w =>
    if refuses n then some (false, w)
    else (writeNumber Grisu2 w.maxDecimalPlaces_ n).map fun text => (true, w.put text)
  | .rawNumber str => (w.Prefix layout false).map fun w => (true, w.put (WriteString str))
  | .string str | .key str => (w.Prefix layout true).map fun w => (true, w.put (WriteString str))
  | .startObject => w.start layout false '{'.toUInt8
  | .startArray => w.start layout true '['.toUInt8
  | .endObject _ => w.finish layout false '}'.toUInt8
  | .endArray _ => w.finish layout true ']'.toUInt8

/-- `IsComplete` -/
def IsComplete (w : Writer) : Bool := w.hasRoot_ && w.level_stack_.isEmpty

end Writer

end RapidJson
