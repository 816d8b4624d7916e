import DeskCalc.Store

/-!
# The store as a document

Between two runs the whole store is kept as one document: the rows by their names, and how many
names have been given out.
-/

namespace DeskCalc.Store

/-- The document of a store. -/
def toJson (s : Store) : Json :=
  .object [("issued", .int s.issued), ("rows", .object (s.rows.map fun (n, t) => (n, .str t)))]

/-- The rows of a document; members that are no texts are left out. -/
def rowsOf : Json → List (String × String)
  | .object members => members.filterMap fun (n, j) =>
    match j with
    | .str t => some (n, t)
    | _ => none
  | _ => []

/-- The store of a document, closed. -/
def ofJson (j : Json) : Store :=
  let issued := match j.get? "issued" with
    | some (.int n) => n.toNat
    | _ => 0
  { empty with rows := rowsOf ((j.get? "rows").getD .null), issued := issued }

end DeskCalc.Store
