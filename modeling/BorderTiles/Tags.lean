import BorderTiles.Document.Reading
import BorderTiles.Table
import BorderTiles.Text.Erase

/-!
# Tags

The tags of map objects: texts by name, where a name may also be present without a text.
`Tags.isDisputed` and `Tags.isMaritime` are the two facts about a border that several tags can state;
`cleanName` prepares a name for display.
-/

namespace BorderTiles

/-- Texts by name. -/
abbrev Tags := Table String (Option String)

namespace Tags

/-- The text of a tag. -/
def text? (tags : Tags) (name : String) : Option String := (tags.get? name).join

/-- Whether the text of a tag says yes. -/
def affirms (tags : Tags) (name : String) : Bool := (tags.text? name).any Value.isYes

/-- It is read as every other value is, and a text always has a reading. -/
theorem affirms_value (tags : Tags) (name : String) :
    (Value.ofText? (tags.text? name)).affirms = .ok (tags.affirms name) := by
  rw [affirms]
  cases tags.text? name <;> rfl

/-- Whether the tags state a dispute. -/
def isDisputed (tags : Tags) : Bool :=
  tags.affirms "disputed" || tags.affirms "dispute" || tags.text? "border_status" == some "dispute"
    || tags.contains "disputed_by" || tags.contains "claimed_by"

/-- Whether the tags state a border at sea. -/
def isMaritime (tags : Tags) : Bool :=
  tags.affirms "maritime" || tags.text? "natural" == some "coastline"
    || tags.text? "boundary_type" == some "maritime"

end Tags

/-- A name without the word " at ", then without blanks, then without "Extentof". -/
def cleanName (name : String) : String :=
  let joined := (Text.erase " at ".toList name.toList).filter (!Text.isAsciiBlank ·)
  String.ofList (Text.erase "Extentof".toList joined)

end BorderTiles
