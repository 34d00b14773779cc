import BorderTiles.Number.Numeral

/-!
# CommandLine

Reading the command line.  An argument is a value, an option, or the separator `--`, behind which
everything is a value.  A long option may be shortened to a start that no other one shares, and its
value may be attached with an equals sign; a negative number is a value.  `CommandLine.parse` gives
the request, or says that help is wanted or that the command line is not understood.
-/

namespace BorderTiles.CommandLine

/-- The options. -/
inductive Flag where
  | help
  | config
  | naturalEarth
  | zoom
  | threads
  | batchSize
  | noCountryNames
  | verbose
  deriving DecidableEq, Repr

/-- The spellings of the options. -/
def spellings : List (String × Flag) := [
  ("-h", .help), ("--help", .help), ("--config", .config), ("--natural-earth", .naturalEarth),
  ("--zoom", .zoom), ("--threads", .threads), ("--batch-size", .batchSize),
  ("--no-country-names", .noCountryNames), ("--verbose", .verbose)]

/-- Whether an option has a value. -/
def Flag.takesValue : Flag → Bool
  | help | noCountryNames | verbose => false
  | _ => true

/-- What the command line asks for. -/
structure Request where
  input : String
  output : String
  config : Option String := none
  naturalEarth : Option String := none
  zoom : Option String := none
  threads : Option Int := none
  batchSize : Option Int := none
  countryNames : Bool := true
  verbose : Bool := false
  deriving Repr

/-- What a command line is. -/
inductive Parsed where
  | help
  | refused
  | request (r : Request)
  deriving Repr

/-- An argument: a value, an option with what is attached to it, the separator, or something that looks
like an option and is none. -/
inductive Word where
  | value (s : String)
  | option (flag : Flag) (short : Bool) (attached : Option String)
  | separator
  | unknown
  deriving Repr

/-- Whether a text is a negative decimal. -/
def isNegativeNumber (s : List Char) : Bool :=
  let isDigit (c : Char) : Bool := (Text.digit? c).isSome
  match s with
  | '-' :: r =>
    let units := r.takeWhile isDigit
    match r.drop units.length with
    | [] => !units.isEmpty
    | '.' :: decimals => !decimals.isEmpty && decimals.all isDigit
    | _ => false
  | _ => false

/-- A text cut at its first equals sign, if it has one. -/
def cutAtEquals (s : List Char) : List Char × Option String :=
  match s.dropWhile (· ≠ '=') with
  | [] => (s, none)
  | _ :: r => (s.takeWhile (· ≠ '='), some (String.ofList r))

/-- The option with a spelling. -/
def spelled? (s : List Char) : Option Flag :=
  (spellings.find? fun (name, _) => name.toList == s).map (·.2)

/-- The options that an argument may stand for, with what is attached. -/
def candidates (s : List Char) : List Word :=
  match s with
  | '-' :: '-' :: _ =>
    let (start, attached) := cutAtEquals s
    (spellings.filter fun (name, _) => start.isPrefixOf name.toList).map fun (_, flag) =>
      .option flag false attached
  | '-' :: c :: r =>
    ((spelled? ['-', c]).map fun flag => Word.option flag true (some (String.ofList r))).toList
  | _ => []

/-- An argument before the separator, unless it could stand for several options. -/
def word? (arg : String) : Option Word :=
  let s := arg.toList
  if s.head? ≠ some '-' then some (.value arg)
  else
    match spelled? s with
    | some flag => some (.option flag false none)
    | none =>
      if s.length = 1 then some (.value arg)
      else
        match cutAtEquals s with
        | (name, some attached) =>
          match spelled? name with
          | some flag => some (.option flag false (some attached))
          | none => rest arg s
        | (_, none) => rest arg s
where
  /-- An argument that is no exact spelling. -/
  rest (arg : String) (s : List Char) : Option Word :=
    match candidates s with
    | [word] => some word
    | [] =>
      if isNegativeNumber s || s.contains ' ' then some (.value arg) else some .unknown
    | _ => none

/-- The arguments as words, unless one is ambiguous. -/
def words? : List String → Option (List Word)
  | [] => some []
  | arg :: r =>
    if arg = "--" then some (.separator :: r.map .value)
    else do
      let w ← word? arg
      let ws ← words? r
      return w :: ws

/-- What has been understood so far. -/
structure Progress where
  values : List String := []
  /-- Whether something cannot be understood, which is held against the line at its end. -/
  extra : Bool := false
  /-- Whether the last word was taken as a value. -/
  taken : Bool := false
  request : Request

/-- The request with the value of an option, if the option accepts it. -/
def setValue (r : Request) (flag : Flag) (s : String) : Option Request :=
  match flag with
  | .config => some { r with config := some s }
  | .naturalEarth => some { r with naturalEarth := some s }
  | .zoom => some { r with zoom := some s }
  | .threads => (Number.wholeOf s).toOption.map fun n => { r with threads := some n }
  | .batchSize => (Number.wholeOf s).toOption.map fun n => { r with batchSize := some n }
  | _ => none

/-- The request with an option that has no value. -/
def switch (r : Request) : Flag → Request
  | .noCountryNames => { r with countryNames := false }
  | .verbose => { r with verbose := true }
  | _ => r

/-- Whether the letters behind the one for help leave it at that: neither a dash nor an equals sign
comes before the first other letter. -/
def keepsHelp : List Char → Bool
  | [] => true
  | '-' :: _ => false
  | 'h' :: '=' :: _ => false
  | 'h' :: rest => keepsHelp rest
  | _ => true

/-- The words from left to right. -/
def scan (p : Progress) : List Word → Parsed
  | [] =>
    match p.values with
    | [input, output] =>
      if p.extra then .refused else .request { p.request with input, output }
    | _ => .refused
  | .value s :: r =>
    if p.values.length < 2 then scan { p with values := p.values ++ [s], taken := true } r
    else scan { p with extra := true } r
  | .separator :: r =>
    if p.values.length < 2 || p.taken then scan p r else scan { p with extra := true } r
  | .unknown :: r => scan { p with extra := true, taken := false } r
  | .option flag short attached :: r =>
    if flag.takesValue then
      match attached, r with
      | some s, r =>
        match setValue p.request flag s with
        | some request => scan { p with request, taken := false } r
        | none => .refused
      | none, .value s :: r =>
        match setValue p.request flag s with
        | some request => scan { p with request, taken := false } r
        | none => .refused
      | none, _ => .refused
    else
      match attached with
      | some s => if flag = .help && short && keepsHelp s.toList then .help else .refused
      | none =>
        if flag = .help then .help
        else scan { p with request := switch p.request flag, taken := false } r

/-- The meaning of a command line. -/
def parse (args : List String) : Parsed :=
  match words? args with
  | none => .refused
  | some ws => scan { request := ⟨"", "", none, none, none, none, none, true, false⟩ } ws

end BorderTiles.CommandLine
