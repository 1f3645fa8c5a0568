import AddonAudit.Bundle

/-!
# The report as data

A bundle as one JSON value: every record, the counts, the message tree, the summaries and the
metadata. How the number of a record is written is left to the caller.
-/

namespace AddonAudit.Report

def ofVersions (versions : AppVersions) : Json :=
  .obj (versions.map fun (app, list) => (app, Json.strings list))

def ofExcerpt (e : Text.Excerpt) : Json :=
  .arr [Json.ofOption .str e.above, Json.ofOption .str e.line, Json.ofOption .str e.below]

def ofCounts (c : Counts) : Json :=
  .ofEntries [("errors", .nat c.errors), ("warnings", .nat c.warnings), ("notices", .nat c.notices)]

def ofSigning (c : SigningCounts) : Json :=
  .ofEntries [("trivial", .nat c.trivial), ("low", .nat c.low), ("medium", .nat c.medium),
    ("high", .nat c.high)]

/-- A field that is written only if there is a value. -/
def field {α : Type} (name : String) (f : α → Json) : Option α → List (String × Json)
  | some a => [(name, f a)]
  | none => []

def ofRecord (label : Nat → String) (r : Record) : Json :=
  .ofEntries <|
    [("uid", .str (label r.uid)), ("type", .str r.severity.name), ("id", Json.strings r.id),
      ("message", .str r.message), ("description", Json.strings r.description),
      ("file", Json.strings r.file), ("line", Json.ofOption .nat r.line),
      ("column", Json.ofOption .nat r.column), ("context", Json.ofOption ofExcerpt r.context),
      ("tier", .nat r.tier), ("editors_only", .bool r.editorsOnly)] ++
    field "for_appversions" ofVersions r.forVersions ++
    field "compatibility_type" (fun s => .str s.name) r.compatibility ++
    field "signing_severity" (fun s => .str s.name) r.signing

mutual

/-- A node of a message tree. A child that has the name of a counter hides it. -/
def ofNode {ι : Type} (label : ι → String) : MessageNode ι → Json
  | ⟨counts, messages, children⟩ =>
    .obj <| Dict.union
      (.ofEntries [("__errors", .nat counts.errors), ("__warnings", .nat counts.warnings),
        ("__notices", .nat counts.notices), ("__messages", Json.strings (messages.map label))])
      (ofLevel label children)

def ofLevel {ι : Type} (label : ι → String) : List (String × MessageNode ι) → List (String × Json)
  | [] => []
  | (name, node) :: rest => (name, ofNode label node) :: ofLevel label rest

end

def ofTree {ι : Type} (label : ι → String) (tree : MessageTree ι) : Json :=
  .obj (ofLevel label tree)

def ofBundle (label : Nat → String) (b : Bundle) (failOnWarnings : Bool) : Json :=
  .ofEntries [
    ("detected_type", .str b.detected.name),
    ("ending_tier", .nat b.endingTier),
    ("success", .bool (!b.failed failOnWarnings)),
    ("messages", .arr (b.messages.map (ofRecord label))),
    ("errors", .nat b.errors.length),
    ("warnings", .nat b.warnings.length),
    ("notices", .nat b.notices.length),
    ("message_tree", ofTree label b.tree),
    ("compatibility_summary", ofCounts b.compat),
    ("signing_summary", ofSigning b.signing),
    ("metadata", .obj b.metadata)]

end AddonAudit.Report
