import BorderTiles.Number.Basic
import BorderTiles.Number.Shortest
import BorderTiles.Text.Quoted

/-!
# Document — Value

The values of a document: null, truth values, numbers, texts, lists and objects whose fields keep
their order.  `Value.shown` is the form of a value inside a message and `Value.spelled` its plain
text, which differs for a text only.  Neither is there if the value is, or holds, a whole number with too
many digits; how deep values are nested makes no difference.  `Value.same` compares scalars, numbers and
truth values by their exact numeric value.
-/

namespace BorderTiles

/-- A value of a document. -/
inductive Value where
  | null
  | bool (b : Bool)
  | number (n : Number)
  | text (s : String)
  | list (items : List Value)
  | object (fields : List (String × Value))
  deriving Inhabited

namespace Value

/-- The whole number `n` as a value. -/
def whole (n : Int) : Value := .number (.whole n)

/-- An optional text, null if absent. -/
def ofText? : Option String → Value
  | some s => .text s
  | none => .null

/-- The name of the type of a value inside a message. -/
def typeName : Value → String
  | null => "NoneType"
  | bool _ => "bool"
  | number (.whole _) => "int"
  | number (.binary _) => "float"
  | text _ => "str"
  | list _ => "list"
  | object _ => "dict"

/-- The field of an object with a name; of several the last. -/
def field? : Value → String → Option Value
  | object fields, name => (fields.reverse.find? (·.1 == name)).map (·.2)
  | _, _ => none

/-- The least natural number that has too many digits. -/
def digitLimit : Nat := Nat.pow 10 Fault.maxDigits

/-- A number as text: whole numbers in full, binary ones by their shortest decimal. -/
def numberText : Number → Except Fault String
  | .whole n => if digitLimit ≤ n.natAbs then .error .longWhole else .ok (toString n)
  | .binary x => .ok (Number.shortest x)

mutual

/-- The form of a value inside a message. -/
def shown : Value → Except Fault String
  | null => .ok "None"
  | bool b => .ok (if b then "True" else "False")
  | number n => numberText n
  | text s => .ok (Text.quoted s)
  | list items => do return "[" ++ ", ".intercalate (← shownItems items) ++ "]"
  | object fields => do return "\x7b" ++ ", ".intercalate (← shownFields fields) ++ "\x7d"

/-- The forms of the items of a list. -/
def shownItems : List Value → Except Fault (List String)
  | [] => .ok []
  | v :: r => do return (← shown v) :: (← shownItems r)

/-- The forms of the fields of an object. -/
def shownFields : List (String × Value) → Except Fault (List String)
  | [] => .ok []
  | (name, v) :: r => do return (Text.quoted name ++ ": " ++ (← shown v)) :: (← shownFields r)

end

/-- The plain text of a value. -/
def spelled : Value → Except Fault String
  | text s => .ok s
  | v => shown v

/-- The number that a scalar counts as. -/
def asNumber? : Value → Option Number
  | bool b => some (.whole (if b then 1 else 0))
  | number n => some n
  | _ => none

/-- Whether two scalars are the same key. -/
def same : Value → Value → Bool
  | null, null => true
  | text s, text t => s == t
  | v, w =>
    match v.asNumber?, w.asNumber? with
    | some m, some n => m.same n
    | _, _ => false

end Value
end BorderTiles
