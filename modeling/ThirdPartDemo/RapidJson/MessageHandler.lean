import Mathlib.Data.Finmap
import ThirdPartDemo.Library.Sax

/-!
# RapidJsonDemo — reading a map of messages

`MessageHandler` and `ParseMessages` of `RapidJsonDemo/RapidJsonDemo.cpp`. The
handler is a three-state automaton: an object has to start, then a name or the
end of the object has to come, then the value of the name. `ParseMessages`
runs RapidJSON's reader on it and swaps the handler's map into the caller's
only when the parse succeeded.

RapidJSON's reader is a parameter: for every text it knows either the document
the text denotes, and then fires the document's events in order, or that the
text is invalid, and then reports an error after firing some events of its
choosing. In both cases it stops with an error at the first callback that
returns `false`. A `std::map` is a finite map, whose `insert` keeps the value
that is already there.
-/

namespace RapidJson

open Library

/-- `map<string, string>` -/
abbrev MessageMap := Finmap fun _ : Bytes => Bytes

/-- `map::insert`: an existing key keeps its value. -/
def MessageMap.insert (m : MessageMap) (k v : Bytes) : MessageMap :=
  if k ∈ m then m else Finmap.insert k v m

/-- `MessageHandler::State` -/
inductive State where
  | kExpectObjectStart
  | kExpectNameOrObjectEnd
  | kExpectValue
  deriving DecidableEq, Repr

structure MessageHandler where
  messages_ : MessageMap := ∅
  state_ : State := .kExpectObjectStart
  name_ : Bytes := []

namespace MessageHandler

/-- `MessageHandler::StartObject` -/
def StartObject (h : MessageHandler) : Bool × MessageHandler :=
  match h.state_ with
  | .kExpectObjectStart => (true, { h with state_ := .kExpectNameOrObjectEnd })
  | _ => (false, h)

/-- `MessageHandler::String` -/
def String (h : MessageHandler) (str : Bytes) : Bool × MessageHandler :=
  match h.state_ with
  | .kExpectNameOrObjectEnd => (true, { h with name_ := str, state_ := .kExpectValue })
  | .kExpectValue =>
    (true, { h with
      messages_ := h.messages_.insert h.name_ str
      state_ := .kExpectNameOrObjectEnd })
  | _ => (false, h)

/-- `MessageHandler::EndObject` -/
def EndObject (h : MessageHandler) (_memberCount : Nat) : Bool × MessageHandler :=
  (decide (h.state_ = .kExpectNameOrObjectEnd), h)

/-- `MessageHandler::Default`: all other events are invalid. -/
def Default (h : MessageHandler) : Bool × MessageHandler := (false, h)

/-- The callbacks as the reader reaches them: `BaseReaderHandler` forwards `Key`
and `RawNumber` to `String` and what the handler does not override to
`Default`. -/
def handle (h : MessageHandler) : SaxEvent → Bool × MessageHandler
  | .startObject => h.StartObject
  | .string str | .key str | .rawNumber str => h.String str
  | .endObject memberCount => h.EndObject memberCount
  | .null | .bool _ | .number _ | .startArray | .endArray _ => h.Default

end MessageHandler

/-- What a text is for the reader: the document it denotes, or invalid text for
which it fires some events before it reports the error. -/
inductive Reading where
  | valid (root : Json)
  | invalid (fired : List SaxEvent)

/-- RapidJSON's `Reader` with default flags. -/
structure Reader where
  read : Bytes → Reading

/-- `Reader::Parse`: whether the parse succeeded, and the handler afterwards. -/
def Reader.Parse (reader : Reader) (json : Bytes) (handler : MessageHandler) :
    Bool × MessageHandler :=
  match reader.read json with
  | .valid root => fire MessageHandler.handle handler root.events
  | .invalid fired => (false, (fire MessageHandler.handle handler fired).2)

/-- `ParseMessages`, as the map `messages` that it leaves. -/
def ParseMessages (reader : Reader) (json : Bytes) (messages : MessageMap) : MessageMap :=
  match reader.Parse json {} with
  | (true, handler) => handler.messages_   -- only change it if success
  | (false, _) => messages

end RapidJson
