import BatteryLink.Number.Reading
import BatteryLink.Text.Digit
import BatteryLink.Text.Quoted
/-!
Command lines: words that are options, values of options, or words in their own right. Long options
may be cut short as long as they stay unambiguous, short ones may be written together, and a value
may follow its option after an equals sign. After `--` every word stands in its own right.
-/
namespace BatteryLink.CommandLine

structure OptionRule where
  /-- All spellings, each with its dashes. -/
  names : List String
  /-- Whether a whole number follows. -/
  takesNumber : Bool := false
  /-- Whether the option asks for help. -/
  isHelp : Bool := false
  deriving DecidableEq, Repr

/-- A word that is expected in its own right. -/
structure WordRule where
  name : String
  /-- The words that are allowed, any word if there are none. -/
  choices : List String := []
  /-- Whether everything that follows belongs to it. -/
  takesRest : Bool := false
  deriving DecidableEq, Repr

structure Grammar where
  program : String
  options : List OptionRule
  words : List WordRule
  deriving DecidableEq, Repr

inductive UsageProblem where
  | ambiguous (word : String) (candidates : List String)
  | unusedValue (option value : String)
  | noValue (option : String)
  | notInt (option value : String)
  | notAmong (name value : String) (choices : List String)
  | missing (names : List String)
  | unrecognized (words : List String)
  deriving DecidableEq, Repr

def UsageProblem.message : UsageProblem → String
  | ambiguous word candidates =>
    "ambiguous option: " ++ word ++ " could match " ++ ", ".intercalate candidates
  | unusedValue option value =>
    "argument " ++ option ++ ": ignored explicit argument " ++ Text.Quoted.quote value
  | noValue option => "argument " ++ option ++ ": expected one argument"
  | notInt option value =>
    "argument " ++ option ++ ": invalid int value: " ++ Text.Quoted.quote value
  | notAmong name value choices =>
    "argument " ++ name ++ ": invalid choice: " ++ Text.Quoted.quote value ++ " (choose from "
      ++ ", ".intercalate (choices.map Text.Quoted.quote) ++ ")"
  | missing names => "the following arguments are required: " ++ ", ".intercalate names
  | unrecognized words => "unrecognized arguments: " ++ " ".intercalate words

/-- How the reading of a command line ends early. -/
inductive Ending where
  | problem (program : String) (p : UsageProblem)
  | help (program : String)
  deriving DecidableEq, Repr

/-- The last line of the report of a problem, or the line that is given as help. -/
def Ending.line : Ending → String
  | .problem program p =>
    let text := program ++ ": error: " ++ p.message
    String.ofList ((text.toList.reverse.dropWhile (· == '\n')).takeWhile (· != '\n')).reverse
  | .help program => "usage: " ++ program ++ " [-h] ..."

abbrev Parsed := Except Ending

def OptionRule.label (o : OptionRule) : String := "/".intercalate o.names

namespace Grammar

def spellings (g : Grammar) : List (String × OptionRule) :=
  g.options.flatMap fun o => o.names.map fun n => (n, o)

def rule? (g : Grammar) (spelling : String) : Option OptionRule :=
  (g.spellings.find? (·.1 == spelling)).map (·.2)

def fail {α : Type} (g : Grammar) (p : UsageProblem) : Parsed α := .error (.problem g.program p)

end Grammar

inductive Token where
  | word (text : String)
  /-- Two dashes: only words follow. -/
  | mark
  /-- An option, which the grammar may not know, as it was spelled, with what is attached to it, and
  whether that follows an equals sign. -/
  | option (text : String) (rule : Option OptionRule) (spelling : String)
      (attached : Option (Bool × String))
  deriving DecidableEq, Repr

def Token.text : Token → String
  | word s => s
  | mark => "--"
  | option s _ _ _ => s

namespace Token

/-- A minus sign and digits, perhaps with a point before the last of them. -/
def isNegativeNumber (s : List Char) : Bool :=
  let s := if s.getLast? = some '\n' then s.dropLast else s
  match s with
  | '-' :: r =>
    let whole := r.takeWhile Text.isDecimal
    match r.drop whole.length with
    | [] => !whole.isEmpty
    | '.' :: fraction => !fraction.isEmpty && fraction.all Text.isDecimal
    | _ => false
  | _ => false

/-- What stands before the first equals sign and what stands after it, if there is one. -/
def splitValue (s : List Char) : List Char × Option (List Char) :=
  let before := s.takeWhile (· != '=')
  match s.drop before.length with
  | _ :: after => (before, some after)
  | [] => (before, none)

/-- The options that a word can stand for, each with what is attached. -/
def candidates (g : Grammar) (s : String) : List (OptionRule × String × Option (Bool × String)) :=
  match s.toList with
  | '-' :: '-' :: _ =>
    let (start, value) := splitValue s.toList
    (g.spellings.filter fun (n, _) => start.isPrefixOf n.toList).map fun (n, o) =>
      (o, n, value.map fun v => (true, String.ofList v))
  | '-' :: c :: rest =>
    g.spellings.filterMap fun (n, o) =>
      if n.toList = ['-', c] then some (o, n, some (false, String.ofList rest))
      else if s.toList.isPrefixOf n.toList then some (o, n, none)
      else none
  | _ => []

/-- The token for a word before any mark. -/
def ofWord (g : Grammar) (s : String) : Parsed Token :=
  match s.toList with
  | '-' :: rest =>
    match g.rule? s with
    | some o => .ok (.option s (some o) s none)
    | none =>
      if rest.isEmpty then .ok (.word s)
      else
        let (start, value) := splitValue s.toList
        let spelled := if value.isSome then g.rule? (String.ofList start) else none
        match spelled with
        | some o =>
          .ok (.option s (some o) (String.ofList start) (value.map fun v => (true, String.ofList v)))
        | none =>
          match candidates g s with
          | [(o, n, v)] => .ok (.option s (some o) n v)
          | [] =>
            if isNegativeNumber s.toList || s.toList.contains ' ' then .ok (.word s)
            else .ok (.option s none s none)
          | many => g.fail (.ambiguous s (many.map fun (_, n, _) => n))
  | _ => .ok (.word s)

def ofWords (g : Grammar) : List String → Parsed (List Token)
  | [] => .ok []
  | "--" :: r => .ok (mark :: r.map word)
  | s :: r => do
    let t ← ofWord g s
    return t :: (← ofWords g r)

def isMark : Token → Bool
  | mark => true
  | _ => false

def isOption : Token → Bool
  | option .. => true
  | _ => false

end Token

/-- What was found on a command line, the latest first. -/
structure Found where
  options : List (String × String) := []
  words : List (String × String) := []
  /-- What follows the word that takes the rest. -/
  rest : List String := []
  deriving DecidableEq, Repr

namespace Found

/-- The value that was given last for an option, or the mark that it was given. -/
def option? (f : Found) (spelling : String) : Option String :=
  (f.options.find? (·.1 == spelling)).map (·.2)

def word (f : Found) (name : String) : String :=
  ((f.words.find? (·.1 == name)).map (·.2)).getD ""

def number (f : Found) (spelling : String) (usual : Int) : Int :=
  match (f.option? spelling).map fun s => Reading.int s.toList with
  | some (.ok i) => i
  | _ => usual

end Found

namespace Grammar

def takeOption (g : Grammar) (f : Found) (o : OptionRule) (value : Option String) : Parsed Found :=
  if o.isHelp then .error (.help g.program)
  else
    let key := o.names.getLast?.getD ""
    match value with
    | none => .ok { f with options := (key, "") :: f.options }
    | some v =>
      match Reading.int v.toList with
      | .ok _ => .ok { f with options := (key, v) :: f.options }
      | .error _ => g.fail (.notInt o.label v)

def takeOptions (g : Grammar) (f : Found) : List (OptionRule × Option String) → Parsed Found
  | [] => .ok f
  | (o, v) :: r => do takeOptions g (← takeOption g f o v) r

/-- What a token for options amounts to: the options with their values, and what is left of it that
the grammar does not know. -/
structure Expansion where
  options : List (OptionRule × Option String)
  /-- Whether the last option still needs a value. -/
  needsValue : Bool := false
  unknown : Option String := none

def Expansion.cons (o : OptionRule) (x : Expansion) : Expansion :=
  { x with options := (o, none) :: x.options }

/-- Options that are written together after one dash. What follows an equals sign, or another dash,
must be a value. -/
def cluster (g : Grammar) (o : OptionRule) (isLong isValue : Bool) (attached : List Char) :
    Parsed Expansion :=
  if o.takesNumber then .ok { options := [(o, some (String.ofList attached))] }
  else
    match attached with
    | [] => g.fail (.unusedValue o.label "")
    | c :: rest =>
      if isLong || isValue || c = '-' then g.fail (.unusedValue o.label (String.ofList attached))
      else
        match g.rule? (String.ofList ['-', c]) with
        | none => .ok { options := [(o, none)], unknown := some (String.ofList ('-' :: attached)) }
        | some p =>
          match rest with
          | [] => .ok { options := [(o, none), (p, none)], needsValue := p.takesNumber }
          | '=' :: value => return (← cluster g p false true value).cons o
          | d :: more => return (← cluster g p false false (d :: more)).cons o

def setLast (v : String) : List (OptionRule × Option String) → List (OptionRule × Option String)
  | [] => []
  | [(o, _)] => [(o, some v)]
  | x :: r => x :: setLast v r

/-- The options that a token stands for, and whether the word after it is the value of the last of
them. -/
def expand (g : Grammar) (o : OptionRule) (spelling : String) (attached : Option (Bool × String))
    (after : List Token) : Parsed (Expansion × Bool) := do
  let x ← match attached with
    | some (isValue, v) =>
      cluster g o ((spelling.toList.drop 1).head? = some '-') isValue v.toList
    | none => .ok { options := [(o, none)], needsValue := o.takesNumber }
  if x.needsValue then
    match after with
    | .word v :: _ => return ({ x with options := setLast v x.options }, true)
    | _ => g.fail (.noValue ((x.options.getLast?.map fun y => y.1.label).getD ""))
  else return (x, false)

/-- The tokens that a rule for words takes from the front, marks around it included. -/
def wordLength (r : WordRule) (ts : List Token) : Nat :=
  let marks := (ts.takeWhile Token.isMark).length
  match ts.drop marks with
  | .word _ :: after =>
    if r.takesRest then ts.length else marks + 1 + (after.takeWhile Token.isMark).length
  | _ => 0

/-- Takes the tokens that belong to a rule for words. A mark before a word that takes the rest is
taken for that word. -/
def takeWord (g : Grammar) (f : Found) (r : WordRule) (ts : List Token) : Parsed Found :=
  let texts := if r.takesRest then ts else ts.filter fun t => !t.isMark
  match texts.map Token.text with
  | [] => .ok f
  | s :: rest =>
    if r.choices.isEmpty || r.choices.contains s then
      .ok { f with words := (r.name, s) :: f.words, rest := if r.takesRest then rest else f.rest }
    else g.fail (.notAmong r.name s r.choices)

/-- Takes as many expected words as there are at the front. -/
def takeWords (g : Grammar) (f : Found) : List WordRule → List Token →
    Parsed (Found × List WordRule × List Token)
  | [], ts => .ok (f, [], ts)
  | r :: rs, ts =>
    match wordLength r ts with
    | 0 => .ok (f, r :: rs, ts)
    | n => do takeWords g (← takeWord g f r (ts.take n)) rs (ts.drop n)

/-- What was found, the words that were expected and not found, and what nobody expected. -/
structure Reading where
  found : Found := {}
  expected : List WordRule
  extras : List String := []

/-- Reads tokens from left to right. `fuel` is at least the number of tokens. -/
def readTokens (g : Grammar) : Nat → Reading → List Token → Parsed Reading
  | 0, r, _ => .ok r
  | fuel + 1, r, ts =>
    if ts.any Token.isOption then
      match ts with
      | .option text none _ _ :: after =>
        readTokens g fuel { r with extras := r.extras ++ [text] } after
      | .option _ (some o) spelling attached :: after => do
        let (x, takesWord) ← expand g o spelling attached after
        let found ← takeOptions g r.found x.options
        readTokens g fuel { r with found, extras := r.extras ++ x.unknown.toList }
          (if takesWord then after.drop 1 else after)
      | ts => do
        let (found, expected, after) ← takeWords g r.found r.expected ts
        if after.length < ts.length then readTokens g fuel { r with found, expected } after
        else
          let unclaimed := ts.takeWhile fun t => !t.isOption
          readTokens g fuel { r with extras := r.extras ++ unclaimed.map Token.text }
            (ts.drop unclaimed.length)
    else do
      let (found, expected, after) ← takeWords g r.found r.expected ts
      return { found, expected, extras := r.extras ++ after.map Token.text }

/-- Reads a command line. Words that nobody expected are given back. -/
def read (g : Grammar) (words : List String) : Parsed (Found × List String) := do
  let ts ← Token.ofWords g words
  let r ← readTokens g (ts.length + 1) { expected := g.words } ts
  match r.expected with
  | [] => return (r.found, r.extras)
  | missing => g.fail (.missing (missing.map (·.name)))

end Grammar
end BatteryLink.CommandLine
