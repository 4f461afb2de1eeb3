import WasmStream.Pattern.Element

/-! Which patterns can be used. There are no tables of what characters are, so classes by a property
and comparison without case need modes in which ASCII is enough. A pattern is matched byte by byte and
against text only: no part of it may match bytes that are no text, and the ends of words, which depend
on the characters on both sides, are out of reach. -/
namespace WasmStream
namespace Pattern

/-- Whether case counts for nothing, and whether characters beyond ASCII count. -/
structure Modes where
  anyCase : Bool := false
  unicode : Bool := true
  deriving DecidableEq, Repr

def Modes.set (m : Modes) (fs : Flags) : Modes where
  anyCase := (fs.lookup 'i').getD m.anyCase
  unicode := (fs.lookup 'u').getD m.unicode

def Atom.fault? (m : Modes) : Atom → Option Cause
  | .literal _ c isByte => if !m.unicode && isByte && 128 ≤ c.toNat then some .notText else none
  | .anyChar _ => if m.unicode then none else some .notText
  | .perlClass _ negated =>
    if m.unicode then some .perlClassUnavailable else if negated then some .notText else none
  | .property _ => some (if m.unicode then .propertyUnavailable else .unicodeNotAllowed)
  | .anchor _ | .boundary _ => none

/-- The place and the cause if an element is of no use in these modes. -/
def Element.fault? (m : Modes) : Element → Option Fault
  | .atom a =>
    match a.fault? m, a with
    | some cause, _ => some { cause, span := a.span }
    | none, .literal span .. =>
      if m.unicode && m.anyCase then some { cause := .caseUnavailable, span } else none
    | none, _ => none
  | .member a =>
    match a.fault? m, a with
    | some cause, _ => some { cause, span := a.span }
    | none, .literal span c _ =>
      if !m.unicode && 128 ≤ c.toNat then some { cause := .unicodeNotAllowed, span } else none
    | none, _ => none
  | .bracketed span negated =>
    if m.unicode then if m.anyCase then some { cause := .caseUnavailable, span } else none
    else if negated then some { cause := .notText, span }
    else none
  | .flags _ | .groupOpen _ | .groupClose => none

/-- Each element with the modes at its place. Modes last to the end of the group in which they are
set; `outer` holds those of the groups that are open. -/
def withModes (m : Modes) (outer : List Modes) : List Element → List (Modes × Element)
  | [] => []
  | e :: rest =>
    (m, e) :: match e, outer with
    | .flags fs, _ => withModes (m.set fs) outer rest
    | .groupOpen fs, _ => withModes (m.set fs) (m :: outer) rest
    | .groupClose, before :: outer => withModes before outer rest
    | _, _ => withModes m outer rest

inductive Refusal where
  | fault (fault : Fault)
  | boundary
  deriving DecidableEq, Repr

/-- Why a pattern is refused: for the first fault in its text, else for the end of a word. -/
def refusal? (pattern : List Char) : Option Refusal :=
  match elements pattern with
  | .error fault => some (.fault fault)
  | .ok es =>
    let placed := withModes {} [] es
    match placed.findSome? fun p => p.2.fault? p.1 with
    | some fault => some (.fault fault)
    | none =>
      if placed.any fun p => p.1.unicode && p.2 matches .atom (.boundary _) then some .boundary
      else none

/-- What failed, and behind it what made it fail. -/
def Refusal.chain (pattern : List Char) : Refusal → List String
  | fault f => ["error building NFA", "error parsing regex", f.message pattern]
  | boundary =>
    ["unsupported regex feature for DFAs: cannot build DFAs for regexes with Unicode word " ++
      "boundaries; switch to ASCII word boundaries, or heuristically enable Unicode word " ++
      "boundaries or use a different regex engine"]

end Pattern
end WasmStream
