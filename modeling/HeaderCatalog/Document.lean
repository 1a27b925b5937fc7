import HeaderCatalog.Entry.Json
import HeaderCatalog.Json.Printer
import HeaderCatalog.Survey
import HeaderCatalog.Timestamp

set_option autoImplicit false

/-!
# Catalogue documents

A session is written as one object: a collection for each kind of entry, with the entries under their names in order of
first mention; the blocks in lists by framework; the frameworks referred to; and what the catalogue was made from.
-/

namespace HeaderCatalog

/-- The version of the layout of documents. -/
def layoutVersion : String := "1"

/-- The collections of a document that hold entries by name, with the kind of their entries. -/
def collections : List (String × EntryKind) :=
  [("classes", .class_), ("extensions", .extension), ("protocols", .protocol), ("types", .synonym), ("enums", .enum),
    ("vars", .global), ("functions", .function), ("structs", .record .struct), ("unions", .record .union)]

namespace Registry

/-- The entries of a kind under their names. -/
def collectionToJson (registry : Registry) (kind : EntryKind) : Json :=
  .object ((registry.ofKind kind).map fun entry => (entry.name, entry.toJson))

/-- The blocks in lists by framework. -/
def blocksToJson (registry : Registry) : Json :=
  .object (registry.blockFrameworks.map fun framework =>
    (framework, .list ((registry.blocksOf framework).map (·.toJson))))

end Registry

namespace Session

/-- What a catalogue was made from, and when, in seconds since the start of 1970. -/
def metadata (session : Session) (generated : Int) : Json :=
  .object
    [("api-version", .text layoutVersion), ("generated", .text (Timestamp.render generated)),
      ("sdk-path", .text session.settings.sdkPath), ("min-version", .text session.settings.minVersion),
      ("framework", .text session.settings.frameworkName)]

/-- The catalogue of a session. -/
def document (session : Session) (generated : Int) : Json :=
  .object
    (collections.map (fun (key, kind) => (key, session.registry.collectionToJson kind)) ++
      [("blocks", session.registry.blocksToJson), ("dependencies", .texts session.dependencies),
        ("metadata", session.metadata generated)])

/-- The text of the catalogue as it is written to a file, with the line end behind it. -/
def documentText (session : Session) (generated : Int) (indented : Bool) : String :=
  (session.document generated).render indented ++ "\n"

end Session

end HeaderCatalog
