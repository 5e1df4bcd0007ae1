import NestedSelection.Schema.Basic

/-! # A sample schema

Users, organisations and the links between them, comments that can answer each other, and a table
of settings that is related to nothing.
-/

namespace NestedSelection

namespace Schema

def sampleTable (columns : List String) (references : List String) : Table :=
  let t := columns.foldl (fun t column => t.withField column "string") ({} : Table)
  references.foldl (fun t name => t.withRelationship (.references name)) t

def sample : Schema :=
  ({} : Schema)
    |>.withTable "User" (sampleTable ["id", "firstName", "lastName", "email", "createdAt"] [])
    |>.withTable "Organization" (sampleTable ["id", "name", "slug"] [])
    |>.withTable "UserOrganization"
      (sampleTable ["id", "userId", "organizationId", "role"] ["User", "Organization"])
    |>.withTable "Comment" (sampleTable ["id", "body", "authorId", "parentId"] ["User", "Comment"])
    |>.withTable "Setting" (sampleTable ["key", "value"] [])

end Schema

end NestedSelection
