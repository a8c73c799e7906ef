import RobotDesk.Orchestrator
import RobotDesk.Proofs.Encoding
import RobotDesk.Proofs.JsonText

/-!
Rows of the orchestrator's tables as text.

A collection of rows is read as the rows that its items are read as.  The body that sets an asset is
read as the row of that asset, and a job row that is written with all its columns as it was.
-/
namespace RobotDesk.OData

open Json Text

/-- The text of a collection, whose rows are given by their texts. -/
def collectionText (rows : List String) : String :=
  "\x7b\"value\":[" ++ itemsText rows ++ "]\x7d"

theorem collectionText_eq (rows : List String) : collectionText rows =
    "\x7b" ++ membersText [("value", "[" ++ itemsText rows ++ "]")] ++ "\x7d" := by
  have hkey : renderString "value" = "\"value\"" := by decide
  apply String.toList_inj.mp
  simp [collectionText, membersText, memberText, itemsText, hkey]

theorem Rows.codec_spells {α : Type} {row : Codec α} {depth : Nat} (written : List (String × α))
    (h : ∀ p ∈ written, Spells (row.read depth) p.1 p.2) :
    Spells ((Rows.codec row).read (depth + 2)) (collectionText (written.map Prod.fst))
      ⟨written.map Prod.snd⟩ := by
  have hfolds : Folds (Fields.step
      [.defaulted "value" (.list row) fun v r => { r with value := v }] (depth + 1)) ([], {})
      [("value", "[" ++ itemsText (written.map Prod.fst) ++ "]")]
      (["value"], ({ value := written.map Prod.snd } : Rows α)) :=
    .field rfl rfl (Codec.list_spells written h) (.nil _)
  rw [collectionText_eq]
  exact Codec.record_spells hfolds rfl

/-- A collection that is received is read as its rows. -/
theorem Rows.decode_utf8 {α : Type} {row : Codec α} (written : List (String × α))
    (h : ∀ p ∈ written, ∀ depth, Spells (row.read (depth + 1)) p.1 p.2) :
    (Rows.codec row).decode (ofBytes (utf8 (collectionText (written.map Prod.fst)))) =
      .ok ⟨written.map Prod.snd⟩ := by
  have hspells : Spells ((Rows.codec row).read (124 + 1 + 2))
      (collectionText (written.map Prod.fst)) ⟨written.map Prod.snd⟩ :=
    Rows.codec_spells written fun p hp => h p hp 124
  rw [ofBytes_utf8]
  exact Codec.decode_of_spells hspells

/-- The row of an asset. -/
def AssetRow.ofAsset (a : AssetValue) : AssetRow := ⟨a.name, a.type.name, .string a.value⟩

theorem render_assetBody (a : AssetValue) : (Orchestrator.assetBody a).render =
    "\x7b" ++ membersText [("Name", renderString a.name), ("Value", renderString a.value),
      ("ValueType", renderString a.type.name)] ++ "\x7d" := by
  rw [Orchestrator.assetBody, render, renderMembers_eq]
  simp only [List.map_cons, List.map_nil, render]

/-- The body that sets an asset is read as its row. -/
theorem AssetRow.codec_spells (a : AssetValue) (depth : Nat) :
    Spells (AssetRow.codec.read (depth + 1)) (Orchestrator.assetBody a).render (ofAsset a) := by
  have hfolds : Folds (Fields.step AssetRow.fields depth) ([], ⟨"", "", .null⟩)
      [("Name", renderString a.name), ("Value", renderString a.value),
        ("ValueType", renderString a.type.name)]
      (["ValueType", "Value", "Name"], ofAsset a) :=
    .field rfl rfl (Codec.string_spells depth a.name)
      (.field rfl rfl (Codec.json_string_spells depth a.value)
        (.field rfl rfl (Codec.string_spells depth a.type.name) (.nil _)))
  rw [render_assetBody]
  exact Codec.record_spells hfolds rfl

theorem AssetRow.asset?_ofAsset (a : AssetValue) : (ofAsset a).asset? = .ok a := by
  simp only [ofAsset, asset?, AssetType.ofName?_name, valueText]

/-- The text of a column that may be empty. -/
def columnText (column : Option String) : String := column.elim "null" renderString

theorem columnText_spells (column : Option String) (depth : Nat) :
    Spells ((Codec.option Codec.string).read depth) (columnText column) column := by
  cases column with
  | none => exact Codec.option_none_spells Codec.string depth
  | some s => exact Codec.option_some_spells (Codec.string_spells depth s) (head?_renderString s)

namespace JobRow

/-- The columns of a row with a text for an id. -/
def columns (row : JobRow) (id : String) : List (String × String) :=
  [("Id", renderString id), ("ReleaseName", columnText row.releaseName),
   ("State", columnText row.state), ("CreationTime", columnText row.creationTime),
   ("StartTime", columnText row.startTime), ("EndTime", columnText row.endTime),
   ("Info", columnText row.info), ("OutputArguments", columnText row.outputArguments)]

theorem render_toJson {row : JobRow} {id : String} (h : row.id = some (.string id)) :
    row.toJson.render = "\x7b" ++ membersText (row.columns id) ++ "\x7d" := by
  have htext : ∀ column,
      ((Codec.option Codec.string).toJson column).render = columnText column := by
    intro column
    cases column <;> simp [Codec.option, Codec.string, columnText, render]
  have hid : ((Codec.option Codec.json).toJson (some (.string id))).render = renderString id := by
    simp [Codec.option, Codec.json, render]
  rw [toJson, render, renderMembers_eq, h]
  simp only [List.map_cons, List.map_nil, htext, hid, columns]

/-- A job row with a text for an id is read as it is written. -/
theorem codec_spells {row : JobRow} {id : String} (h : row.id = some (.string id)) (depth : Nat) :
    Spells (codec.read (depth + 1)) row.toJson.render row := by
  have hid :
      Spells ((Codec.option Codec.json).read depth) (renderString id) (some (.string id)) :=
    Codec.option_some_spells (Codec.json_string_spells depth id) (head?_renderString id)
  have hfolds : Folds (Fields.step fields depth) ([], {}) (row.columns id)
      (["OutputArguments", "Info", "EndTime", "StartTime", "CreationTime", "State", "ReleaseName",
        "Id"], { row with id := some (.string id) }) :=
    .field rfl rfl hid (.field rfl rfl (columnText_spells _ depth)
      (.field rfl rfl (columnText_spells _ depth) (.field rfl rfl (columnText_spells _ depth)
      (.field rfl rfl (columnText_spells _ depth) (.field rfl rfl (columnText_spells _ depth)
      (.field rfl rfl (columnText_spells _ depth) (.field rfl rfl (columnText_spells _ depth)
      (.nil _))))))))
  rw [← h] at hfolds
  rw [render_toJson h]
  exact Codec.record_spells hfolds rfl

end JobRow

end RobotDesk.OData
