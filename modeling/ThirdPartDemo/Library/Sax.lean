import Mathlib.Data.List.Basic
import ThirdPartDemo.Library.FileSystem

/-!
# Library — JSON documents and their SAX events

A SAX reader does not build a document: it walks through it and calls the
handler once per event, in document order, and stops at the first call that
returns `false`. `Json.events` is the event sequence of a document, and `fire`
runs a handler over a sequence of events with that early stop.

Strings are byte strings, as a reader hands them over after decoding escapes.
The rules are `fire_cons`, `fire_append` and `fire_rejects`: a handler that
rejects the first event of a value rejects the whole document from there on.
-/

namespace Library

universe u

/-- The number events a reader distinguishes, by the type it found to fit. -/
inductive JsonNumber where
  | int (i : Int)
  | uint (n : Nat)
  | int64 (i : Int)
  | uint64 (n : Nat)
  | double (bits : UInt64)
  deriving DecidableEq, Repr

/-- A JSON document, with object members in source order. -/
inductive Json where
  | null
  | bool (b : Bool)
  | number (n : JsonNumber)
  | string (s : Bytes)
  | array (elements : List Json)
  | object (members : List (Bytes × Json))

/-- One call of a SAX handler. -/
inductive SaxEvent where
  | null
  | bool (b : Bool)
  | number (n : JsonNumber)
  | rawNumber (s : Bytes)
  | string (s : Bytes)
  | startObject
  | key (s : Bytes)
  | endObject (memberCount : Nat)
  | startArray
  | endArray (elementCount : Nat)
  deriving DecidableEq, Repr

mutual
/-- The events of a value, in document order. -/
def Json.events : Json → List SaxEvent
  | .null => [.null]
  | .bool b => [.bool b]
  | .number n => [.number n]
  | .string s => [.string s]
  | .array elements =>
    .startArray :: (elementEvents elements ++ [.endArray elements.length])
  | .object members =>
    .startObject :: (memberEvents members ++ [.endObject members.length])

def elementEvents : List Json → List SaxEvent
  | [] => []
  | v :: vs => v.events ++ elementEvents vs

def memberEvents : List (Bytes × Json) → List SaxEvent
  | [] => []
  | (k, v) :: rest => .key k :: (v.events ++ memberEvents rest)
end

/-- Call the handler on the events in turn, stopping at the first call that
returns `false`. -/
def fire {σ : Type u} (handler : σ → SaxEvent → Bool × σ) : σ → List SaxEvent → Bool × σ
  | s, [] => (true, s)
  | s, e :: es =>
    match handler s e with
    | (true, s') => fire handler s' es
    | (false, s') => (false, s')

variable {σ : Type u} {handler : σ → SaxEvent → Bool × σ} {s s' : σ}

/-- An accepted event passes the handler on to the next one. -/
theorem fire_cons {e : SaxEvent} (h : handler s e = (true, s')) (es : List SaxEvent) :
    fire handler s (e :: es) = fire handler s' es := by
  rw [fire, h]

/-- An accepted sequence passes the handler on to what follows it. -/
theorem fire_append {es : List SaxEvent} (h : fire handler s es = (true, s'))
    (fs : List SaxEvent) : fire handler s (es ++ fs) = fire handler s' fs := by
  induction es generalizing s with
  | nil =>
    cases h
    rfl
  | cons e es ih =>
    rw [List.cons_append]
    rw [fire] at h ⊢
    match hh : handler s e with
    | (true, s₁) =>
      rw [hh] at h
      exact ih h
    | (false, s₁) =>
      rw [hh] at h
      cases h

/-- A rejected event rejects everything after it. -/
theorem fire_rejects {e : SaxEvent} (h : (handler s e).1 = false) (es : List SaxEvent) :
    (fire handler s (e :: es)).1 = false := by
  rw [fire]
  match hh : handler s e with
  | (true, s₁) =>
    rw [hh] at h
    cases h
  | (false, s₁) => rfl

end Library
