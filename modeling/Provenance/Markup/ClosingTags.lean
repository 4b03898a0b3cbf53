import Provenance.Markup.Escape
import Provenance.Markup.Fragment

/-! # Which tags have closing tags

A probe answers whether elements of a tag are written with a closing tag. A memory asks
the probe once for each tag and keeps the answers.
-/

namespace Provenance.Markup

/-- Answers whether elements of a tag are written with a closing tag. -/
abbrev ClosingTags := String → Bool

/-- The answer by the list of void elements. -/
def ClosingTags.byVoidTags : ClosingTags := fun tag => !isVoid tag

/-- The answers of another probe for tags in lower case. -/
def ClosingTags.folded (probe : ClosingTags) : ClosingTags := fun tag => probe (lowerAscii tag)

/-- Answers by a table of tags, and by another probe for tags that are not in it: how callers bring
    answers of their own. The mapper itself puts no such probe together. -/
def ClosingTags.withTable (table : List (String × Bool)) (probe : ClosingTags) : ClosingTags :=
  fun tag => (table.lookup tag).getD (probe tag)

/-- The answers that have been given so far, by tags in lower case. -/
structure ClosingTagMemory where
  known : List (String × Bool) := []

namespace ClosingTagMemory

/-- The number of tags that have been asked for. -/
def size (memory : ClosingTagMemory) : Nat := memory.known.length

/-- Answers from memory, or else by the probe, and keeps the answer. -/
def ask (memory : ClosingTagMemory) (probe : ClosingTags) (tag : String) :
    Bool × ClosingTagMemory :=
  let key := lowerAscii tag
  match memory.known.lookup key with
  | some answer => (answer, memory)
  | none =>
    let answer := probe key
    (answer, ⟨(key, answer) :: memory.known⟩)

end ClosingTagMemory

end Provenance.Markup
