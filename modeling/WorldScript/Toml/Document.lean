import WorldScript.Toml.Statement

/-!
Whole documents. Statements are obeyed from first to last; the header read last says to which
table the assignments after it belong.
-/
set_option autoImplicit false

namespace WorldScript.Toml

structure Draft where
  root : Fields := []
  current : List String := []

/-- Obey one statement, unless it defines something a second time. -/
def Draft.obey (d : Draft) : Statement → Option Draft
  | .nothing => some d
  | .assign k value => do
    let root ← d.root.inside (Fields.assign k.name value k.path) d.current
    return { d with root }
  | .table k => do
    let root ← d.root.inside (Fields.openTable k.name) k.path
    return ⟨root, k.path ++ [k.name]⟩
  | .element k => do
    let root ← d.root.inside (Fields.addTable k.name) k.path
    return ⟨root, k.path ++ [k.name]⟩

def dropOrderMark : List Char → List Char
  | '\uFEFF' :: rest => rest
  | cs => cs

def read? (text : String) : Option Fields := do
  let statements ← Reading.each statement (dropOrderMark text.toList)
  let draft ← statements.foldlM Draft.obey {}
  return draft.root

end WorldScript.Toml
