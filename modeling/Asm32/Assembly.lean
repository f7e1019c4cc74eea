import Asm32.Session

/-!
# Assembling a source

A source is assembled as a whole: either every instruction has a word, or the first fault is the
answer.  Faults of the first pass come before those of the second.
-/

namespace Asm32

/-- The items of results without a fault, or the first fault. -/
def collect : List (Except LineFault Item) → Except LineFault (List Item)
  | []            => .ok []
  | .error e :: _ => .error e
  | .ok a :: rest => (collect rest).map (a :: ·)

/-- The outcome of assembling a source, with what was logged. -/
structure Assembly where
  result : Except LineFault (List Item)
  events : List Event

/-- Assembles a source with the standard registry. -/
def Assembly.ofSource (source : String) (setting : Setting) : Assembly :=
  match (Session.start .standard setting).addSource source with
  | (s, .error e) => ⟨.error e, s.events.toList⟩
  | (s, .ok ())   => ⟨collect s.finished.results, s.finished.events⟩

/-- The assembled instructions of a source. -/
def assemble (source : String) (setting : Setting) : Except LineFault (List Item) :=
  (Assembly.ofSource source setting).result

end Asm32
