import ThirdPartDemo.Library.Outline
import ThirdPartDemo.RapidJson.Reader

/-!
# RapidJSON — values and documents

`GenericValue` and `GenericDocument` of `rapidjson/document.h`. A number is 64 bits and
the flags that say as which of the types it can be read; which accessor `Accept` takes
is decided by the flags alone. A document is built on a stack: the end of an object or
array pops as many values as the reader says it has, and overwrites the empty object or
array below them.

Where an assertion of the source fails there is no result (`none`). Counts and lengths
are natural numbers, as they are for texts shorter than `2^27` bytes.
-/

namespace RapidJson

open Library

-- ---------------------------------------------------------------------------
-- Numbers
-- ---------------------------------------------------------------------------

/-- `Number`, with the flags that go with it. -/
structure Number where
  data : BitVec 64
  kIntFlag : Bool := false
  kUintFlag : Bool := false
  kInt64Flag : Bool := false
  kUint64Flag : Bool := false
  kDoubleFlag : Bool := false
  deriving DecidableEq

namespace Number

/-- `GenericValue(int)` -/
def ofInt (i : Int) : Number :=
  { data := BitVec.ofInt 64 i
    kIntFlag := true
    kInt64Flag := true
    kUintFlag := decide (0 ≤ i)
    kUint64Flag := decide (0 ≤ i) }

/-- `GenericValue(unsigned)` -/
def ofUint (u : Nat) : Number :=
  { data := BitVec.ofNat 64 u
    kUintFlag := true
    kUint64Flag := true
    kInt64Flag := true
    kIntFlag := BitVec.ofNat 32 u &&& 0x80000000#32 == 0 }

/-- `GenericValue(int64_t)` -/
def ofInt64 (i64 : Int) : Number :=
  let data := BitVec.ofInt 64 i64
  if 0 ≤ i64 then
    { data
      kInt64Flag := true
      kUint64Flag := true
      kUintFlag := data &&& 0xFFFFFFFF00000000#64 == 0
      kIntFlag := data &&& 0xFFFFFFFF80000000#64 == 0 }
  else { data, kInt64Flag := true, kIntFlag := decide (-0x80000000 ≤ i64) }

/-- `GenericValue(uint64_t)` -/
def ofUint64 (u64 : Nat) : Number :=
  let data := BitVec.ofNat 64 u64
  { data
    kUint64Flag := true
    kInt64Flag := data &&& 0x8000000000000000#64 == 0
    kUintFlag := data &&& 0xFFFFFFFF00000000#64 == 0
    kIntFlag := data &&& 0xFFFFFFFF80000000#64 == 0 }

/-- `GenericValue(double)` -/
def ofDouble (bits : UInt64) : Number := { data := bits.toBitVec, kDoubleFlag := true }

/-- The number that a handler is called with. -/
def ofJson : JsonNumber → Number
  | .int i => ofInt i
  | .uint u => ofUint u
  | .int64 i64 => ofInt64 i64
  | .uint64 u64 => ofUint64 u64
  | .double bits => ofDouble bits

/-- The call that `Accept` makes for a number. -/
def toJson (n : Number) : JsonNumber :=
  if n.kDoubleFlag then .double ⟨n.data⟩
  else if n.kIntFlag then .int (n.data.truncate 32).toInt
  else if n.kUintFlag then .uint (n.data.truncate 32).toNat
  else if n.kInt64Flag then .int64 n.data.toInt
  else .uint64 n.data.toNat

end Number

-- ---------------------------------------------------------------------------
-- Values
-- ---------------------------------------------------------------------------

/-- `GenericValue` -/
inductive GenericValue where
  | null
  | bool (b : Bool)
  | number (n : Number)
  | string (s : Bytes)
  | array (elements : List GenericValue)
  | object (members : List (Bytes × GenericValue))

namespace GenericValue

mutual

/-- `Accept` -/
def Accept {σ : Type} (handler : σ → SaxEvent → Bool × σ) : GenericValue → σ → Bool × σ
  | .null, s => handler s .null
  | .bool b, s => handler s (.bool b)
  | .number n, s => handler s (.number n.toJson)
  | .string str, s => handler s (.string str)
  | .object members, s =>
    match handler s .startObject with
    | (false, s) => (false, s)
    | (true, s) =>
      match acceptMembers handler members s with
      | (false, s) => (false, s)
      | (true, s) => handler s (.endObject members.length)
  | .array elements, s =>
    match handler s .startArray with
    | (false, s) => (false, s)
    | (true, s) =>
      match acceptElements handler elements s with
      | (false, s) => (false, s)
      | (true, s) => handler s (.endArray elements.length)

def acceptElements {σ : Type} (handler : σ → SaxEvent → Bool × σ) :
    List GenericValue → σ → Bool × σ
  | [], s => (true, s)
  | v :: elements, s =>
    match Accept handler v s with
    | (false, s) => (false, s)
    | (true, s) => acceptElements handler elements s

def acceptMembers {σ : Type} (handler : σ → SaxEvent → Bool × σ) :
    List (Bytes × GenericValue) → σ → Bool × σ
  | [], s => (true, s)
  | (name, v) :: members, s =>
    match handler s (.key name) with
    | (false, s) => (false, s)
    | (true, s) =>
      match Accept handler v s with
      | (false, s) => (false, s)
      | (true, s) => acceptMembers handler members s

end

end GenericValue

-- ---------------------------------------------------------------------------
-- Documents
-- ---------------------------------------------------------------------------

/-- The members that `EndObject` finds on the stack. A name that is no string is caught
by an assertion of `Accept`. -/
def membersOf : List GenericValue → Option (List (Bytes × GenericValue))
  | [] => some []
  | .string name :: v :: rest => (membersOf rest).map ((name, v) :: ·)
  | _ => none

/-- `GenericDocument` -/
structure GenericDocument where
  value : GenericValue := .null
  parseResult_ : Option ParseError := none

namespace GenericDocument

/-- The handler functions of `GenericDocument`, on its stack, top first. -/
def handle (stack_ : List GenericValue) : SaxEvent → Option (Bool × List GenericValue)
  | .null => some (true, .null :: stack_)
  | .bool b => some (true, .bool b :: stack_)
  | .number n => some (true, .number (.ofJson n) :: stack_)
  | .rawNumber str | .string str | .key str => some (true, .string str :: stack_)
  | .startObject => some (true, .object [] :: stack_)
  | .startArray => some (true, .array [] :: stack_)
  | .endObject memberCount =>
    if stack_.length < 2 * memberCount then none
    else
      match membersOf (stack_.take (2 * memberCount)).reverse, stack_.drop (2 * memberCount) with
      | some members, _ :: stack_ => some (true, .object members :: stack_)
      | _, _ => none
  | .endArray elementCount =>
    if stack_.length < elementCount then none
    else
      match stack_.drop elementCount with
      | _ :: below => some (true, .array (stack_.take elementCount).reverse :: below)
      | [] => none

/-- `ParseStream` on a string in memory; `none` where an assertion fails. -/
def ParseStream (flags : ParseFlags) (json : Bytes) (d : GenericDocument) :
    Option GenericDocument :=
  match GenericReader.Parse flags json (asserting handle) (some []) with
  | (.done _, some [v]) => some { value := v, parseResult_ := none }
  | (.fail e, some _) => some { d with parseResult_ := some e }
  | _ => none

/-- `ParseInsitu` -/
def ParseInsitu (flags : ParseFlags) (str : Bytes) (d : GenericDocument) :
    Option GenericDocument := d.ParseStream { flags with insitu := true } str

end GenericDocument

end RapidJson
