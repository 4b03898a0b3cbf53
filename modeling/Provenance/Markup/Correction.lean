import Provenance.Markup.Escape
import Provenance.Markup.Origin
import Provenance.Markup.Reference

/-! # Correction tables

For every character of a serialized text a table says how far the assigned character it
comes from lies behind, counted from the place where the text begins on both sides. The
table is found by reading both sides at once: a character may have been written as a
reference, a reference as a character, and a line feed may stand for a carriage return
and a line feed.

Positions in the assigned string are sums of signed words. What becomes of one that leaves its word
depends on how the program was built.
-/

namespace Provenance.Markup

/-- How the program was built. -/
inductive Build where
  /-- A sum that leaves its word breaks the program off. -/
  | checked
  /-- Such a sum wraps around. -/
  | wrapping
  deriving DecidableEq, Repr

/-- The position that a sum comes to, as long as the program goes on. -/
def Build.position : Build → Int → Int
  | checked, sum => sum
  | wrapping, sum => (Int64.ofInt sum).toInt

/-- What a computation comes to that makes these sums. There is nothing if the program is broken
    off. -/
def Build.result? (build : Build) (sums : List Int) (result : α) : Option α :=
  if build = .checked && !sums.all Origin.isSigned then none else some result

/-- The assigned side: a string, and the place from which on nothing is corrected. -/
structure Source (build : Build) where
  chars : List Char
  contentEnd : Int

variable {build : Build}

/-- Up to `count` characters from a position on; none before the beginning or after the end. -/
def Source.slice (source : Source build) (position : Int) (count : Nat) : List Char :=
  let position := build.position position
  if position < 0 then [] else (source.chars.drop position.toNat).take count

/-- How one serialized character and what follows it relate to the assigned side. -/
inductive Pairing where
  /-- The same on both sides. -/
  | same
  /-- `more` further serialized characters belong to the same assigned character. -/
  | written (more : Nat)
  /-- `more` further assigned characters belong to the same serialized character. -/
  | decoded (more : Nat)

/-- How many further serialized characters belong to the same assigned character. -/
def Pairing.inside : Pairing → Nat
  | written more => more
  | _ => 0

/-- How many further assigned characters belong to the same serialized character. -/
def Pairing.dropped : Pairing → Nat
  | decoded more => more
  | _ => 0

/-- Pairs a serialized text with the assigned text at the same place. Where references are
    kept as raw text and then escaped, the escape of the ampersand belongs to it. -/
def pairing (keepsReferences : Bool) (text assigned : List Char) : Pairing :=
  match referenceLength? text, referenceLength? assigned with
  | some _, some _ =>
    if keepsReferences && ['&', 'a', 'm', 'p', ';'].isPrefixOf text then .written 4 else .same
  | some length, none => .written (length - 1)
  | none, some length => .decoded (length - 1)
  | none, none => .same

/-- Whether a line feed was assigned as a carriage return and a line feed. -/
def joinsLines (text assigned : List Char) : Bool :=
  text.head? = some '\n' && assigned.head? = some '\r'

/-- Pairs a serialized text with the assigned side at a position. How many further serialized
    characters belong to the first one, and how many further assigned characters: a carriage return
    before a line feed is one of them. -/
def Source.pair (source : Source build) (keepsReferences : Bool) (text : List Char)
    (position : Int) : Nat × Nat :=
  let assigned := source.slice position referenceWindow
  let pair := pairing keepsReferences text assigned
  (pair.inside, pair.dropped + if joinsLines text assigned then 1 else 0)

/-- The corrections for a serialized text from the assigned position on, after `added`
    characters more than assigned have been written, and how many have been in the end. The
    next `inside` characters belong to the assigned character before them. -/
def Source.corrections (source : Source build) (keepsReferences : Bool) :
    (text : List Char) → (inside : Nat) → (position : Int) → (added : Int) → List Int × Int
  | [], _, _, added => ([], added)
  | _ :: rest, inside + 1, position, added =>
    let (table, total) := source.corrections keepsReferences rest inside position (added + 1)
    (-(added + 1) :: table, total)
  | c :: rest, 0, position, added =>
    if source.contentEnd ≤ build.position position then ([-added], added)
    else
      let (inside, dropped) := source.pair keepsReferences (c :: rest) position
      let (table, total) := source.corrections keepsReferences rest inside
        (position + 1 + dropped) (added - dropped)
      (-added :: table, total)

/-- The positions that are summed up for these corrections: for every character that is looked up,
    where it stands counted from the place where the text begins, and the position of what it comes
    from. -/
def Source.sums (source : Source build) (keepsReferences : Bool) :
    (text : List Char) → (inside : Nat) → (position : Int) → (added : Int) → List Int
  | [], _, _, _ => []
  | _ :: rest, inside + 1, position, added =>
    source.sums keepsReferences rest inside position (added + 1)
  | c :: rest, 0, position, added =>
    (position + added) :: position ::
      if source.contentEnd ≤ build.position position then []
      else
        let (inside, dropped) := source.pair keepsReferences (c :: rest) position
        source.sums keepsReferences rest inside (position + 1 + dropped) (added - dropped)

/-- Whether references in the content of elements of this tag are kept as raw text. -/
def keepsReferences (tag : String) : Bool := sameTag tag "noscript"

/-- The correction table of a serialized text inside an element of the given tag that begins
    at the given assigned position, and how many characters more than assigned it has. -/
def Source.table (source : Source build) (tag : String) (text : List Char) (position : Int) :
    List Int × Int :=
  source.corrections (keepsReferences tag) text 0 position 0

/-- The positions that are summed up for that table, that of its beginning first. -/
def Source.tableSums (source : Source build) (tag : String) (text : List Char)
    (position : Int) : List Int :=
  position :: source.sums (keepsReferences tag) text 0 position 0

end Provenance.Markup
