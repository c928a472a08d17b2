import EventStore.Doc

/-!
# Printing an answer

An answer is printed leaf by leaf, object fields in their order and lists in order, and two kinds
of leaf are spelled then:

* an identifier below `2 ^ 32` is a number; a larger one that already has a label keeps it; one
  that the request gave by value is its text form; any other (one the service made up) is a label
  `"$k"`, numbered from one in the order the labels are first printed;
* a wall-clock reading within thirty days of the current time is `"now"`, any other reading is a
  number.

A session prints its answers step by step into one `Labels`, so a later step may name an
identifier by the label an earlier step printed (`Labels.resolve?`).
-/

namespace EventStore

/-- The current time of a run, in milliseconds since the Unix epoch: every reading the services
take of the wall clock. -/
def wallClock : Int := 1794500000000

/-- Thirty days in milliseconds: the distance from `wallClock` within which a reading is `"now"`. -/
def nowWindow : Int := 30 * 24 * 3600 * 1000

/-- The printing state of one answer. -/
structure Labels where
  /-- The values of the identifiers the request gave by value, as read so far. -/
  given : List Nat := []
  /-- The identifiers printed as labels so far: label `k` is entry `k - 1`. -/
  printed : Array Uuid := #[]
  deriving Inhabited

namespace Labels

/-- The identifier printed earlier as `"$k"`. -/
def resolve? (L : Labels) (k : Nat) : Option Uuid :=
  if k = 0 then none else L.printed[k - 1]?

/-- The label of a made-up identifier, numbering it on first use. -/
def label (L : Labels) (u : Uuid) : String × Labels :=
  match L.printed.idxOf? u with
  | some i => ("$" ++ toString (i + 1), L)
  | none => ("$" ++ toString (L.printed.size + 1), { L with printed := L.printed.push u })

/-- How an identifier is printed. -/
def spell (L : Labels) (u : Uuid) : Doc × Labels :=
  if u.value < Nat.pow 2 32 then (Doc.nat u.value, L)
  else if !L.printed.contains u && L.given.contains u.value then (Doc.str u.toText, L)
  else
    let (s, L') := L.label u
    (Doc.str s, L')

end Labels

namespace Doc

/-- How a wall-clock reading is printed. -/
def spellClock (ms : Int) : Doc :=
  if (ms - wallClock).natAbs ≤ nowWindow.natAbs then str "now" else int ms

/-- Prints a document: identifiers and clock readings become plain leaves, in reading order. -/
def render : Doc → StateM Labels Doc
  | ident u => modifyGet fun L => L.spell u
  | clock ms => pure (spellClock ms)
  | arr items => arr <$> items.attach.mapM fun ⟨d, _⟩ => render d
  | obj fields => obj <$> fields.attach.mapM fun ⟨(k, d), _⟩ => do
      let d' ← render d
      pure (k, d')
  | d => pure d
decreasing_by
  all_goals
    have h := List.sizeOf_lt_of_mem ‹_ ∈ _›
    try simp only [Prod.mk.sizeOf_spec] at h
    try simp only [Doc.obj.sizeOf_spec, Doc.arr.sizeOf_spec]
    omega

/-- Rewrites every text leaf of a document with `f`; field names stay as they are. -/
def mapText (f : String → String) : Doc → Doc
  | str s => str (f s)
  | arr items => arr (items.attach.map fun ⟨d, _⟩ => mapText f d)
  | obj fields => obj (fields.attach.map fun ⟨(k, d), _⟩ => (k, mapText f d))
  | d => d
decreasing_by
  all_goals
    have h := List.sizeOf_lt_of_mem ‹_ ∈ _›
    try simp only [Prod.mk.sizeOf_spec] at h
    try simp only [Doc.obj.sizeOf_spec, Doc.arr.sizeOf_spec]
    omega

end Doc

end EventStore
