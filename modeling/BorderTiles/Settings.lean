import BorderTiles.Document.Reader
import BorderTiles.Document.Reading
import BorderTiles.Logged
import BorderTiles.Table

/-!
# Settings

The settings of a run: defaults, overridden by a file, overridden by options.  `Settings.merge` enters
what a file holds: the fields of an object, or pairs of a name and a value.  A pair can also be a text
of two characters or an object of two fields, whose names are taken.
-/

namespace BorderTiles

/-- Values by name. -/
abbrev Settings := Table String Value

namespace Settings

/-- What holds without a file and without options. -/
def defaults : Settings := .ofList [
  ("boundary_country_names", .bool true),
  ("threads", .whole 4),
  ("batch_size", .whole 1000),
  ("zoom", .text "0-14"),
  ("max_workers_tiles", .whole 4)]

/-- The items that a compound value goes through. -/
def items? : Value → Option (List Value)
  | .list items => some items
  | .text s => some (s.toList.map fun c => .text (String.singleton c))
  | .object fields => some (fields.map fun f => .text f.1)
  | _ => none

/-- The settings with a pair entered.  A name that is no text is nobody's setting. -/
def enterPair (s : Settings) (name value : Value) : Except Fault Settings :=
  match name with
  | .text t => .ok (s.put t value)
  | .list _ | .object _ => .error (.notKey name.typeName)
  | _ => .ok s

/-- The settings with pairs entered, of which `index` came before. -/
def mergePairs (index : Nat) (s : Settings) : List Value → Except Fault Settings
  | [] => .ok s
  | v :: rest =>
    match items? v with
    | none => .error (.notSequence index)
    | some [name, value] => do mergePairs (index + 1) (← s.enterPair name value) rest
    | some items => .error (.notPair index items.length)

/-- The settings with what a file holds entered. -/
def merge (s : Settings) (v : Value) : Except Fault Settings :=
  match v with
  | .object fields => .ok (fields.foldl (fun s f => s.put f.1 f.2) s)
  | v =>
    match items? v with
    | some items => mergePairs 0 s items
    | none => .error (.notCollection v.typeName)

/-- A setting, or a default if there is none. -/
def get (s : Settings) (name : String) (default : Value) : Value := (s.get? name).getD default

/-- The settings with one of them set, unless the value is null. -/
def set (s : Settings) (name : String) (value : Value) : Settings :=
  match value with
  | .null => s
  | v => s.put name v

/-- Whether a setting says yes. -/
def affirms (s : Settings) (name : String) : Except Fault Bool := (s.get name .null).affirms

/-- The plain text of a setting. -/
def spelled (s : Settings) (name : String) : Except Fault String := (s.get name .null).spelled

/-- A setting as a whole number. -/
def whole (s : Settings) (name : String) : Except Fault Int := (s.get name .null).toWhole

/-- The number of workers, at least two. -/
def threads (s : Settings) : Except Fault Int := do
  let n ← s.whole "threads"
  return max 2 n

/-- The settings with those of a file, whose text is given if it exists. -/
def load {α : Type} (path : String) (text : Option String) : Logged α Settings := do
  match text with
  | none => .fail (.missingSettings path)
  | some text =>
    let v ← .ofExcept (Value.parse text)
    let s ← .ofExcept (defaults.merge v)
    .note (.settingsLoaded path)
    return s

end Settings
end BorderTiles
