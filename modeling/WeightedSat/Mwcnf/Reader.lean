import WeightedSat.Mwcnf.Document
import WeightedSat.Mwcnf.Notice
import WeightedSat.Mwcnf.Stream
import WeightedSat.Text.Blank
import WeightedSat.Text.Numeral

/-!
# Reading instances

A text in the MWCNF format consists of lines.  Blank lines and lines that start with `c` are
comments.  The first significant line that starts with `p` is the header, the first one after it
that starts with `w` holds the weights, and each one after that is a clause:

```text
p mwcnf 3 2
w 4 2 7 0
1 -2 0
2 3 0
```

Reading is a fold over the lines.  What has been read so far is a `Phase`; one line takes a phase
to the next (`Phase.advance`), the phase at the end of the text yields a document
(`Phase.document`), and the document makes the instance.  Remarks accumulate in the state of
`Reading`, which an error leaves in place.

## Main definitions

* `readHeader`, `readWeights`, `readClause`: the three kinds of lines.
* `readDocument`, `read`: the document and the instance that a stream holds.
-/

namespace WeightedSat.Mwcnf

/-- **Reading**: an action that may fail to yield an instance and that makes remarks, which stay
when it fails. -/
abbrev Reading := EStateM (Failure LoadError) (Array Notice)

/-- Makes a remark. -/
def remark (n : Notice) : Reading Unit :=
  modify (·.push n)

/-- Ends the reading with an error of the text. -/
def refuse {α : Type} (e : LoadError) : Reading α :=
  throw (.error e)

/-! ## The three kinds of lines -/

/-- **Header line**: the word `p`, a word for the format, a positive number of variables and a
number of clauses.  Formats other than `mwcnf` are remarked upon; further words are ignored. -/
def readHeader (line : List Char) : Reading (Nat × Nat) := do
  let invalid := LoadError.invalidHeader (String.ofList line)
  match Text.words line with
  | ['p'] :: format :: rest =>
    if String.ofList format ≠ "mwcnf" then
      remark (.unexpectedFormat (String.ofList format))
    match rest with
    | vars :: clauses :: _ =>
      match Text.count? vars, Text.count? clauses with
      | some numVars, some numClauses =>
        if numVars = 0 then refuse invalid else pure (numVars, numClauses)
      | _, _ => refuse invalid
    | _ => refuse invalid
  | _ => refuse invalid

/-- The weights at the front of a list of words: they end at the first word that is no count, at
a zero, and after `n` of them. -/
def takeWeights : Nat → List (List Char) → List Nat
  | 0, _ => []
  | _, [] => []
  | n + 1, w :: ws =>
    match Text.count? w with
    | none => []
    | some 0 => []
    | some weight => weight :: takeWeights n ws

/-- **Weights line**: the word `w` and at least one count.  The table of weights is allocated
when the word `w` has been read.  Weights that are missing are zero, which is remarked upon. -/
def readWeights (numVars : Nat) (line : List Char) : Reading (List Nat) :=
  match Text.words line with
  | ['w'] :: rest => do
    if capacity ≤ numVars then throw (.fault .capacityOverflow)
    if (rest.head?.bind Text.count?).isNone then refuse .missingWeights
    let weights := takeWeights numVars rest
    if weights.length < numVars then remark (.shortWeights weights.length numVars)
    pure (Instance.fitWeights numVars weights)
  | _ => refuse .missingWeights

/-- The codes at the front of a list of words: they end at the first word that is no literal code
and at a zero. -/
def takeCodes : List (List Char) → List Int
  | [] => []
  | w :: ws =>
    match Text.literalCode? w with
    | none => []
    | some z => if z = 0 then [] else z :: takeCodes ws

/-- **Clause line**: the codes up to the terminating zero. -/
def readClause (line : List Char) : List Int :=
  takeCodes (Text.words line)

/-! ## The lines of a text -/

/-- **Phase**: what has been read so far. -/
inductive Phase
  | header
  | weights (numVars declared : Nat)
  /-- The clauses are kept last line first. -/
  | clauses (numVars declared : Nat) (weights : List Nat) (reversed : List (List Int))
deriving DecidableEq, Repr

/-- Whether a trimmed line is skipped in every phase. -/
def isComment : List Char → Bool
  | [] => true
  | c :: _ => c == 'c'

/-- One significant line, trimmed. -/
def Phase.advance (line : List Char) : Phase → Reading Phase
  | .header =>
    if line.head? = some 'p' then do
      let (numVars, declared) ← readHeader line
      pure (.weights numVars declared)
    else do
      remark (.beforeHeader (String.ofList line))
      pure .header
  | .weights numVars declared =>
    if line.head? = some 'w' then do
      let ws ← readWeights numVars line
      pure (.clauses numVars declared ws [])
    else do
      remark (.beforeWeights (String.ofList line))
      pure (.weights numVars declared)
  | .clauses numVars declared ws reversed =>
    pure (.clauses numVars declared ws (readClause line :: reversed))

/-- One line as it arrives. -/
def Phase.step (phase : Phase) (bytes : List UInt8) : Reading Phase := do
  let text ← match decodeLine bytes with
    | .ok text => pure text
    | .error e => throw e
  let line := Text.trim text.toList
  if isComment line then pure phase else phase.advance line

/-- The document that the lines of a text amount to. -/
def Phase.document : Phase → Reading Document
  | .header => refuse .missingHeader
  | .weights .. => refuse .missingWeights
  | .clauses numVars declaredClauses ws reversed =>
    pure { numVars, declaredClauses, weights := ws, clauses := reversed.reverse }

/-- The document that a stream holds.  The lines that arrive are read first, so an error in one of
them wins over the failure of the source. -/
def readDocument (stream : Stream) : Reading Document := do
  let phase ← stream.lines.foldlM Phase.step .header
  if stream.broken then refuse (.unreadable .interrupted)
  phase.document

/-- The instance of a given name that a stream holds. -/
def read (stream : Stream) (name : String) : Reading Instance := do
  let d ← readDocument stream
  match d.toInstance name with
  | .error e => throw e
  | .ok inst =>
    if inst.numClauses ≠ d.declaredClauses then
      remark (.clauseCount d.declaredClauses inst.numClauses)
    remark (.parsed inst.name inst.numVars inst.numClauses)
    pure inst

/-- The instance that a stream holds, without the remarks. -/
def read? (stream : Stream) (name : String) : Except (Failure LoadError) Instance :=
  match (read stream name).run #[] with
  | .ok inst _ => .ok inst
  | .error e _ => .error e

end WeightedSat.Mwcnf
