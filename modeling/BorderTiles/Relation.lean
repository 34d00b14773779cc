import BorderTiles.Tags

/-!
# Relation

Boundary relations and the table of country codes.  `Relation.ofTags?` accepts an administrative
boundary with a level between `minLevel` and `maxLevel`; `Relation.enter` also notes its country code,
the first one of an id being kept.
-/

namespace BorderTiles

/-- An accepted boundary relation. -/
structure Relation where
  id : Int
  level : Int
  disputed : Bool
  name : Option String
  claimedBy : Option String
  code : Option String
  deriving DecidableEq, Repr

/-- Country codes by relation id; an entry counts even if its id or its code is unknown. -/
abbrev CountryCodes := Table (Option Int) (Option String)

namespace CountryCodes

/-- The code of a relation; an unknown relation has none. -/
def code? (codes : CountryCodes) (id : Option Int) : Option String :=
  id.bind fun n => (codes.get? (some n)).join

/-- Whether a relation has an entry. -/
def holds (codes : CountryCodes) (id : Int) : Bool := codes.contains (some id)

end CountryCodes

namespace Relation

/-- The lowest level of administration, that of countries. -/
def minLevel : Int := 2

/-- The highest level of administration. -/
def maxLevel : Int := 10

/-- The tag of the country code. -/
def codeTag : String := "ISO3166-1:alpha3"

/-- The relation that tags describe, if it is an administrative boundary of a known level. -/
def ofTags? (id : Int) (tags : Tags) : Option Relation :=
  if tags.text? "type" ≠ some "boundary" || tags.text? "boundary" ≠ some "administrative" then none
  else
    match (Value.ofText? (tags.text? "admin_level")).rounded? with
    | none => none
    | some level =>
      if minLevel ≤ level && level ≤ maxLevel then
        let disputed := tags.isDisputed
        some {
          id, level, disputed
          name := tags.text? "name"
          claimedBy := if disputed then tags.text? "claimed_by" else none
          code := tags.text? codeTag }
      else none

/-- The relation that tags describe, and the codes with its own. -/
def enter (id : Int) (tags : Tags) (codes : CountryCodes) : Option Relation × CountryCodes :=
  match ofTags? id tags with
  | none => (none, codes)
  | some r => (some r, if r.code.isSome then codes.putNew (some id) r.code else codes)

end Relation
end BorderTiles
