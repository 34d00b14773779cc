import BorderTiles.Feature
import BorderTiles.Proofs.Table

/-!
# Feature — the attributes of a border

`Border.value?` lists the attributes of a border by name, and `Border.get?_attrs` says that the feature
has these and no others.  Among them are the codes of the countries on the two sides
(`Border.get?_left`, `Border.get?_right`); without these two attributes it is the border without codes
(`Border.erase_sides`).  A name is shown without blanks (`notMem_cleanName`), and only country borders
at sea are drawn before zoom 5 (`firstZoom_late`).
-/

namespace BorderTiles

theorem get?_setAttr_text (attrs : Table String Value) (key a : String) (text : Option String) :
    (setAttr attrs key (.ofText? text)).get? a =
      if a = key then text.map .text else attrs.get? a := by
  cases text with
  | none => exact Table.get?_erase attrs key a
  | some t => exact Table.get?_put attrs key a _

theorem get?_setAttr_whole (attrs : Table String Value) (key a : String) (n : Int) :
    (setAttr attrs key (.whole n)).get? a = if a = key then some (.whole n) else attrs.get? a :=
  Table.get?_put attrs key a _

/-- What is set under a key does not matter once the key is taken out. -/
theorem erase_setAttr (attrs : Table String Value) (key : String) (value : Value) :
    (setAttr attrs key value).erase key = attrs.erase key := by
  cases value with
  | null => exact Table.erase_idem attrs key
  | _ => exact Table.erase_update attrs key _

/-- A name to display has no blank. -/
theorem notMem_cleanName {c : Char} (hc : Text.isAsciiBlank c = true) (name : String) :
    c ∉ (cleanName name).toList := by
  rw [cleanName, String.toList_ofList]
  intro h
  obtain ⟨-, hblank⟩ := List.mem_filter.mp ((Text.erase_sublist _ _).subset h)
  rw [hc] at hblank
  cases hblank

theorem firstZoom_mem (level : Int) (maritime : Bool) :
    4 ≤ firstZoom level maritime ∧ firstZoom level maritime ≤ 12 := by
  fun_cases firstZoom level maritime <;> decide

/-- Only country borders at sea are drawn before zoom 5. -/
theorem firstZoom_late (level : Int) (maritime : Bool) :
    5 ≤ firstZoom level maritime ∨ maritime = true ∧ level = 2 := by
  fun_cases firstZoom level maritime with
  | case1 h => exact .inr (by simpa using h)
  | case2 | case3 | case4 | case5 => exact .inl (by decide)

namespace Feature.Border

/-- What a border shows under a name. -/
def value? (b : Border) : String → Option Value
  | "admin_level" => some (.whole b.level)
  | "disputed" => some (flag b.disputed)
  | "maritime" => some (flag b.maritime)
  | "claimed_by" => b.claimedBy.map .text
  | "disputed_name" => (b.disputedName.map cleanName).map .text
  | "adm0_l" => b.leftCode.map .text
  | "adm0_r" => b.rightCode.map .text
  | _ => none

/-- **The attributes of a border**: those listed, each under its name, and no others. -/
theorem get?_attrs (b : Border) (name : String) : b.attrs.get? name = b.value? name := by
  have hempty : (∅ : Table String Value).get? name = none := rfl
  dsimp only [attrs, flag]
  simp only [get?_setAttr_text, get?_setAttr_whole, hempty]
  fun_cases value? b name <;> simp_all [flag]

theorem get?_left (b : Border) : b.attrs.get? "adm0_l" = b.leftCode.map .text :=
  b.get?_attrs "adm0_l"

theorem get?_right (b : Border) : b.attrs.get? "adm0_r" = b.rightCode.map .text :=
  b.get?_attrs "adm0_r"

/-- **A border without the codes of its sides.** -/
theorem erase_sides (b : Border) : (b.attrs.erase "adm0_l").erase "adm0_r" =
    ({ b with leftCode := none, rightCode := none } : Border).attrs := by
  rw [Table.erase_comm]
  dsimp only [attrs]
  rw [erase_setAttr, Table.erase_comm, erase_setAttr]
  rfl

end Feature.Border
end BorderTiles
