import Highlighting.Grammar.Compiled
import Highlighting.Scan.Progress

/-!
# The scanner

A scan walks over a text with a stack of states.  At each place the first rule of the top state
that matches produces tokens and may push or pop a state; a character that no rule matches becomes
plain text.  A group may have its text scanned anew from another state, at most
`Limits.maxStateDepth` levels deep.  Once the token limit is reached, what is left of a text
becomes one plain token.

A scan never fails, and it reads one character at least in every step, so it ends.
-/

namespace Highlighting

/-- What stays the same during a scan. -/
structure Scanner where
  grammar : Grammar
  /-- the token limit -/
  limit : Nat
  /-- whether unmatched characters are reported -/
  logUnmatched : Bool
deriving DecidableEq, Inhabited

/-- A scan of a text that begins in a state; the text's offset in the source is given. -/
abbrev Rescan := Nat → List Char → Nat → Progress → Progress

namespace Scanner

/-- The part of the text at a cursor between two offsets of the source. -/
def textBetween (c : Cursor) (start stop : Nat) : List Char :=
  takeBytes (stop - start) (dropBytes (start - c.offset) c.ahead)

/-- Leaves the rest of a text unclassified, and reports it the first time. -/
def truncate (s : Scanner) (c : Cursor) (p : Progress) : Progress :=
  let size := byteSize c.ahead
  let p :=
    if p.truncated then p
    else { p with truncated := true }.report <|
      .warningWith .tokenLimitReached "Token limit reached, remaining input left unclassified"
        [("grammar", s.grammar.name), ("limit", toString s.limit),
         ("remaining_bytes", toString size)]
  p.push .text c.offset (c.offset + size)

/-- Makes a plain token of a character that no rule of a state matches. -/
def unmatched (s : Scanner) (state : Nat) (c : Cursor) (ch : Char) (p : Progress) : Progress :=
  let p := { p with unmatchedBytes := p.unmatchedBytes + ch.utf8Size }
  let p :=
    if s.logUnmatched then
      p.report <| .warningWith .unmatchedInput "Input matched no rule"
        [("state", (s.grammar.stateName? state).getD "?"), ("offset", toString c.offset)]
    else p
  p.push .text c.offset (c.offset + ch.utf8Size)

/-- What one group produces. -/
def emitGroup (rescan : Rescan) (c : Cursor) (action : GroupAction Nat) (start stop : Nat)
    (p : Progress) : Progress :=
  match action with
  | .token category => p.push category start stop
  | .keywords table =>
    p.push (table.classify (String.ofList (textBetween c start stop))) start stop
  | .scan state => rescan state (textBetween c start stop) start p

/-- What the groups of a match produce, from a place on: groups that are empty, that took no part
or that begin before the place are passed over, and the text between groups is plain. -/
def emitGroups (rescan : Rescan) (c : Cursor) (stop : Nat) :
    Nat → List (GroupAction Nat × Option (Nat × Nat)) → Progress → Progress
  | place, [], p => p.push .text place stop
  | place, (_, none) :: rest, p => emitGroups rescan c stop place rest p
  | place, (action, some (first, last)) :: rest, p =>
    if first < last ∧ place ≤ first then
      emitGroups rescan c stop last rest
        (emitGroup rescan c action first last (p.push .text place first))
    else emitGroups rescan c stop place rest p

/-- What a match produces. -/
def emit (rescan : Rescan) (c : Cursor) (r : CompiledRule) (m : RuleMatch) (p : Progress) :
    Progress :=
  match r.action with
  | .token category => p.push category c.offset m.stop.offset
  | .keywords table =>
    let word := String.ofList (textBetween c c.offset m.stop.offset)
    p.push (table.classify word) c.offset m.stop.offset
  | .groups actions => emitGroups rescan c m.stop.offset c.offset (actions.zip m.groups) p

/-- Changes the state stack, whose top comes first and whose bottom is never popped.  A push onto
a full stack is ignored, and reported the first time. -/
def follow (s : Scanner) (t : Transition Nat) (stack : List Nat) (p : Progress) :
    List Nat × Progress :=
  match t with
  | .stay => (stack, p)
  | .pop => (if stack.length > 1 then stack.drop 1 else stack, p)
  | .push state =>
    if stack.length ≥ Limits.maxStateDepth then
      let p' := { p with ignoredPushes := p.ignoredPushes + 1 }
      (stack,
       if p.ignoredPushes = 0 then
        p'.report <| .warningWith .stateDepthExceeded "State stack depth limit reached"
          [("grammar", s.grammar.name), ("state", (s.grammar.stateName? state).getD "?"),
           ("limit", toString Limits.maxStateDepth)]
       else p')
    else (state :: stack, { p with maxDepth := max p.maxDepth (stack.length + 1) })

/-- One step of a scan at a character: the place after it, the state stack and the progress. -/
def step (s : Scanner) (rescan : Rescan) (c : Cursor) (ch : Char) (rest : List Char)
    (stack : List Nat) (p : Progress) : Cursor × List Nat × Progress :=
  let state := stack.headD 0
  match s.grammar.firstMatch? state c with
  | some (r, m) => (m.stop, s.follow r.transition stack (emit rescan c r m p))
  | none => (c.past ch rest, stack, s.unmatched state c ch p)

/-- Scans from a cursor to the end of its text.  Every step reads a character at least, which the
list `bound` counts. -/
def scanFrom (s : Scanner) (rescan : Rescan) :
    List Char → Cursor → List Nat → Progress → Progress
  | [], _, _, p => p
  | _ :: bound, c, stack, p =>
    match c.ahead with
    | [] => p
    | ch :: rest =>
      if p.tokens.size ≥ s.limit then s.truncate c p
      else
        let next := s.step rescan c ch rest stack p
        scanFrom s rescan bound next.1 next.2.1 next.2.2

/-- Scans a text that may have groups scanned anew for a number of further levels; on the last
level such a group is one plain token. -/
def scan (s : Scanner) : Nat → Rescan
  | 0, state, text, offset, p =>
    s.scanFrom (fun _ text offset p => p.push .text offset (offset + byteSize text))
      text (.start text offset) [state] p
  | levels + 1, state, text, offset, p =>
    s.scanFrom (s.scan levels) text (.start text offset) [state] p

/-- Scans a whole source from the root state. -/
def run (s : Scanner) (source : List Char) : Progress :=
  s.scan Limits.maxStateDepth s.grammar.root source 0 {}

end Scanner

end Highlighting
