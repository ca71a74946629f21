import WorkloadImages.Text.Digits
import WorkloadImages.Yaml.Cursor

/-!
# The text of YAML scalars

A scalar may be plain, in quotes, or in a block of its own lines. Its text may run over several
lines: a line break between two of its lines counts as a blank, and more line breaks count as one
less than there are. Each reader gives the text and the place after it.

## Main definitions

* `Gap`, `readGap`: the blanks and line breaks between two runs of text
* `readPlain`, `readQuoted`, `readBlock`: the forms of scalars
-/

namespace WorkloadImages.Yaml

/-! ## Gaps -/

/-- The blanks and line breaks between two runs of text. -/
structure Gap where
  /-- The blanks before the first line break. -/
  blanks : List Char
  /-- Whether a line has ended. -/
  broken : Bool
  /-- The first line break. -/
  first : List Char
  /-- The other line breaks. -/
  more : List Char

namespace Gap

/-- No gap. -/
def none : Gap := ⟨[], false, [], []⟩

/-- A gap after a line break that was escaped and counts for nothing. -/
def escaped : Gap := ⟨[], true, [], []⟩

/-- Whether a first line break counts as a blank. -/
def folds (first : List Char) : Bool := first = ['\n']

/-- What the gap counts as. -/
def text (gap : Gap) : List Char :=
  if !gap.broken then gap.blanks
  else if folds gap.first then if gap.more.isEmpty then [' '] else gap.more
  else gap.first ++ gap.more

end Gap

/-- The gap at a place, as a continuation of one, and the place after it. A tab may not stand in
the indentation, which ends at the column `margin`. -/
def readGap (margin : Int) : Nat → Gap → Cursor → Option (Gap × Cursor)
  | 0, _, _ => none
  | fuel + 1, gap, c =>
    if isBlank c.next then
      -- Blanks after a line break are indentation and count for nothing.
      if gap.broken && c.next = '\t' && c.column < margin then none
      else if gap.broken then readGap margin fuel gap (c.skip 1)
      else readGap margin fuel { gap with blanks := gap.blanks ++ [c.next] } (c.skip 1)
    else if isBreak c.next then
      let (text, after) := c.takeBreak
      if gap.broken then readGap margin fuel { gap with more := gap.more ++ text } after
      else readGap margin fuel { gap with blanks := [], broken := true, first := text } after
    else some (gap, c)

/-! ## Plain scalars -/

/-- The run of a plain scalar up to a gap or an indicator that ends it. In a flow collection a colon
may not stand before an indicator. -/
def plainRun (inFlow : Bool) : List Char → Option (List Char)
  | [] => some []
  | c :: cs =>
    let next := cs.headD endMark
    if isGapOrEnd c then some []
    else if inFlow && c = ':' && (isFlowIndicator next || next = '?') then none
    else if (c = ':' && isGapOrEnd next) || (inFlow && isFlowIndicator c) then some []
    else (plainRun inFlow cs).map (c :: ·)

/-- The rest of a plain scalar after a gap, the place after it, and whether a line has ended since
its last run. -/
def readPlainFrom (inFlow : Bool) (margin : Int) :
    Nat → Gap → Cursor → Option (List Char × Cursor × Bool)
  | 0, _, _ => none
  | fuel + 1, gap, c =>
    if c.atDocumentMark || c.next = '#' then some ([], c, gap.broken)
    else match plainRun inFlow c.rest with
      | none => none
      | some run =>
        -- A gap counts only if text follows it.
        let (text, gap) := if run.isEmpty then ([], gap) else (gap.text ++ run, .none)
        let c := c.skip run.length
        if !(isBlank c.next || isBreak c.next) then some (text, c, gap.broken)
        else match readGap margin (c.length + 1) gap c with
          | none => none
          | some (gap, c) =>
            if !inFlow && c.column < margin then some (text, c, gap.broken)
            else (readPlainFrom inFlow margin fuel gap c).map fun (more, c, broken) =>
              (text ++ more, c, broken)

/-- The plain scalar at a place, the place after it, and whether a line has ended since its last
run. In a block its lines begin at the column `margin` at least. -/
def readPlain (inFlow : Bool) (margin : Int) (c : Cursor) :
    Option (List Char × Cursor × Bool) :=
  readPlainFrom inFlow margin (c.length + 1) .none c

/-! ## Quoted scalars -/

/-- The character of an escape of one letter. -/
def shortEscape? : Char → Option Char
  | '0' => some '\x00'
  | 'a' => some '\x07'
  | 'b' => some '\x08'
  | 't' => some '\t'
  | '\t' => some '\t'
  | 'n' => some '\n'
  | 'v' => some '\x0b'
  | 'f' => some '\x0c'
  | 'r' => some '\r'
  | 'e' => some '\x1b'
  | ' ' => some ' '
  | '"' => some '"'
  | '/' => some '/'
  | '\\' => some '\\'
  | 'N' => some '\u0085'
  | '_' => some '\u00a0'
  | 'L' => some '\u2028'
  | 'P' => some '\u2029'
  | _ => none

/-- The number of hexadecimal digits after a letter that announces them. -/
def hexDigits? : Char → Option Nat
  | 'x' => some 2
  | 'u' => some 4
  | 'U' => some 8
  | _ => none

/-- The character of an escape from after its backslash, and the length of the escape. -/
def escape? : List Char → Option (Char × Nat)
  | [] => none
  | c :: cs =>
    match hexDigits? c with
    | none => (shortEscape? c).map (·, 1)
    | some count =>
      if cs.length < count then none
      else match Text.hexDigitsValue? (cs.take count) with
        | some n => if n.isValidChar then some (Char.ofNat n, count + 1) else none
        | none => none

/-- The run of a quoted scalar up to a gap or the closing mark, the place after it, and whether it
ended with an escaped line break. Between single marks only a mark is escaped, by another one. -/
def quotedRun (single : Bool) : Nat → Cursor → Option (List Char × Cursor × Bool)
  | 0, _ => none
  | fuel + 1, c =>
    match c.rest with
    | [] => some ([], c, false)
    | x :: xs =>
      let next := xs.headD endMark
      let push (x : Char) (n : Nat) :=
        (quotedRun single fuel (c.skip n)).map fun (run, after, broken) => (x :: run, after, broken)
      if isGapOrEnd x then some ([], c, false)
      else if single then
        if x = '\'' then if next = '\'' then push '\'' 2 else some ([], c, false)
        else push x 1
      else if x = '"' then some ([], c, false)
      else if x = '\\' then
        -- The blanks before an escaped line break have been kept; those after it are passed over.
        if isBreak next then some ([], (c.skip 1).skipBreak, true)
        else match escape? xs with
          | some (x, n) => push x (n + 1)
          | none => none
      else push x 1

/-- The rest of a quoted scalar, and the place after its closing mark. -/
def readQuotedFrom (single : Bool) : Nat → Cursor → Option (List Char × Cursor)
  | 0, _ => none
  | fuel + 1, c =>
    if c.atDocumentMark || c.rest.isEmpty then none
    else match quotedRun single (c.length + 1) c with
      | none => none
      | some (run, c, broken) =>
        if c.next = (if single then '\'' else '"') then some (run, c.skip 1)
        else match readGap 0 (c.length + 1) (if broken then .escaped else .none) c with
          | none => none
          | some (gap, c) =>
            (readQuotedFrom single fuel c).map fun (more, c) => (run ++ gap.text ++ more, c)

/-- The quoted scalar at a place, and the place after it. -/
def readQuoted (single : Bool) (c : Cursor) : Option (List Char × Cursor) :=
  readQuotedFrom single (c.length + 1) (c.skip 1)

/-! ## Block scalars -/

/-- What becomes of the line breaks at the end of a block. -/
inductive Chomping where
  /-- All are dropped. -/
  | strip
  /-- One is kept. -/
  | clip
  /-- All are kept. -/
  | keep
  deriving Repr, DecidableEq

/-- What a sign in the header of a block says. -/
def chomping? : Char → Option Chomping
  | '-' => some .strip
  | '+' => some .keep
  | _ => none

/-- The header of a block from after its indicator, and the start of the next line. The indentation
is a digit other than zero, and may stand before or after the sign. -/
def readHeader (c : Cursor) : Option (Chomping × Option Nat × Cursor) := do
  let indentation? (c : Cursor) : Option (Option Nat × Cursor) :=
    if c.next.isDigit then
      if c.next = '0' then none else some (some (Text.digitValue c.next), c.skip 1)
    else some (none, c)
  let (chomping, indentation, c) ←
    match chomping? c.next with
    | some chomping => (indentation? (c.skip 1)).map fun (n, c) => (chomping, n, c)
    | none => (indentation? c).map fun (n, c) =>
      match n, chomping? c.next with
      | some _, some chomping => (chomping, n, c.skip 1)
      | _, _ => (.clip, n, c)
  let c := c.skipWhile isBlank
  let c := if c.next = '#' then c.skipWhile (!isBreakOrEnd ·) else c
  if isBreakOrEnd c.next then some (chomping, indentation, c.skipBreak) else none

/-- The empty lines at a place: their line breaks, the greatest indentation seen and the place after
the indentation of the next line. Lines are indented by `indent`, or by any amount when that is
not known yet. -/
def readEmptyLines (indent : Option Nat) :
    Nat → List Char → Nat → Cursor → Option (List Char × Nat × Cursor)
  | 0, _, _, _ => none
  | fuel + 1, breaks, greatest, c =>
    -- Blanks beyond a known indentation belong to the line.
    let room := match indent with
      | some n => n - c.column
      | none => c.length
    let c := c.skip ((c.rest.take room).takeWhile (· = ' ')).length
    let greatest := max greatest c.column
    let indented := match indent with
      | some n => decide (n ≤ c.column)
      | none => false
    if !indented && c.next = '\t' then none
    else if isBreak c.next then
      let (text, c) := c.takeBreak
      readEmptyLines indent fuel (breaks ++ text) greatest c
    else some (breaks, greatest, c)

/-- The lines of a block with their indentation known, after the line break of the line before and
the empty lines after it. A line break between two lines that do not begin with a blank is folded
unless the block is literal. -/
def readLines (literal : Bool) (chomping : Chomping) (indent : Nat) :
    Nat → List Char → List Char → Bool → Cursor → Option (List Char × Cursor)
  | 0, _, _, _, _ => none
  | fuel + 1, last, empty, wasBlank, c =>
    -- A line with less indentation ends the block.
    if c.column = indent ∧ c.rest ≠ [] then
      let blank := isBlank c.next
      -- A line that begins with a blank keeps the line breaks around it.
      let joint :=
        if !literal && Gap.folds last && !wasBlank && !blank then
          if empty.isEmpty then [' '] else empty
        else last ++ empty
      let (line, c) := c.takeWhile (!isBreakOrEnd ·)
      let (last, c) := c.takeBreak
      match readEmptyLines (some indent) (c.length + 1) [] 0 c with
      | none => none
      | some (empty, _, c) =>
        (readLines literal chomping indent fuel last empty blank c).map fun (more, c) =>
          (joint ++ line ++ more, c)
    else
      match chomping with
      | .strip => some ([], c)
      | .clip => some (last, c)
      | .keep => some (last ++ empty, c)

/-- The block scalar at a place within a block whose indentation is `outer`, and the place after
it. Without an indentation in the header the first line that is not empty gives it. -/
def readBlock (literal : Bool) (outer : Int) (c : Cursor) : Option (List Char × Cursor) := do
  let (chomping, indentation, c) ← readHeader (c.skip 1)
  let known := indentation.map fun n => (max outer 0).toNat + n
  let (empty, greatest, c) ← readEmptyLines known (c.length + 1) [] 0 c
  let indent := known.getD (max greatest (max (outer + 1).toNat 1))
  readLines literal chomping indent (c.length + 1) [] empty false c

end WorkloadImages.Yaml
