import EventStore.Uuid

/-!
# Documents

Requests and answers are documents: null, booleans, integers, texts, lists and objects whose
fields keep the order they were written in. Two leaves stand for values whose spelling depends on
the whole answer: an identifier (`ident`), printed as a number, as text or as a label, and a
wall-clock reading (`clock`), printed as `"now"` when it is near the current time. `Doc.render`
settles both.

A number with a fraction or an exponent is `frac`: no field of any request accepts one.
-/

namespace EventStore

/-- A document of the request and answer format. -/
inductive Doc where
  | null
  | bool (b : Bool)
  | int (n : Int)
  | frac
  | str (s : String)
  | arr (items : List Doc)
  | obj (fields : List (String × Doc))
  | ident (u : Uuid)
  | clock (ms : Int)
  deriving Inhabited, Repr

namespace Doc

/-- The field `k` of an object; a field that holds null counts as absent. -/
def get? : Doc → String → Option Doc
  | obj fs, k =>
    match fs.find? (·.1 == k) with
    | some (_, null) => none
    | some (_, v) => some v
    | none => none
  | _, _ => none

/-- Whether the object has the field `k` with a value other than null. -/
def has (d : Doc) (k : String) : Bool := (d.get? k).isSome

/-- A natural number as a document. -/
def nat (n : Nat) : Doc := int n

/-- An optional value, null when absent. -/
def opt {α : Type} (f : α → Doc) : Option α → Doc
  | some a => f a
  | none => null

/-- An object that lists the given fields and then, in order, those optional fields that are
present. -/
def withOptional (fields : List (String × Doc)) (extra : List (String × Option Doc)) : Doc :=
  obj (fields ++ extra.filterMap fun (k, v) => v.map (k, ·))

/-- The answer `{"error": kind}`. -/
def error (kind : String) : Doc := obj [("error", str kind)]

/-- The answer `{"error": kind, "message": text}`. -/
def errorWith (kind message : String) : Doc := obj [("error", str kind), ("message", str message)]

/-- The answer to a request that could not be turned into a call. -/
def badInput : Doc := error "bad_input"

end Doc

end EventStore
