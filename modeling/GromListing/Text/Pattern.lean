/-!
# Patterns

Regular patterns of text, some parts of which are kept as groups. A pattern is searched for from the
beginning of a text, by backtracking: of all ways to match it, the one that comes first in the order
of preference is found. A repetition prefers one more round to an end, and gives rounds back only
where what follows it does not match otherwise.
-/

set_option autoImplicit false

namespace GromListing.Text

inductive Pattern
  /-- One character of a class. -/
  | one (among : Char → Bool)
  | seq (first second : Pattern)
  /-- Any number of rounds, rather more of them than fewer. -/
  | many (round : Pattern)
  /-- The text that the pattern takes is kept. -/
  | group (inner : Pattern)

namespace Pattern

/-- A way to match a pattern: the text of its groups, all the text that it takes, and what is left. -/
structure Match where
  groups : List (List Char)
  taken : List Char
  rest : List Char
  deriving DecidableEq

namespace Match

/-- Nothing of the text is taken. -/
def nothing (text : List Char) : Match := ⟨[], [], text⟩

/-- The second match is one of what the first left. -/
def followedBy (m n : Match) : Match := ⟨m.groups ++ n.groups, m.taken ++ n.taken, n.rest⟩

def kept (m : Match) : Match := { m with groups := m.taken :: m.groups }

end Match

/-- The ways to go on in rounds, from the most rounds to none. A round takes something. -/
def rounds (ways : List Char → List Match) (text : List Char) : List Match :=
  ((ways text).flatMap fun m =>
    if _h : m.rest.length < text.length then (rounds ways m.rest).map m.followedBy else []) ++
    [.nothing text]
termination_by text.length

/-- All ways to match a pattern at the beginning of a text, in the order of preference. -/
def ways : Pattern → List Char → List Match
  | one _, [] => []
  | one among, c :: rest => if among c then [⟨[], [c], rest⟩] else []
  | seq p q, text => (p.ways text).flatMap fun m => (q.ways m.rest).map m.followedBy
  | many p, text => rounds p.ways text
  | group p, text => (p.ways text).map Match.kept

/-- What a search finds. -/
def first? (p : Pattern) (text : List Char) : Option Match := (p.ways text).head?

end Pattern

end GromListing.Text
