import Stencil.Markup.Node.Printer
import Stencil.Markup.Tree
import Stencil.Template.Emit
import Stencil.Template.Resolve

/-!
A compiler keeps the template it parsed last. One that is refused leaves its code in the table.
-/

namespace Stencil.Template

structure Compiler where
  options : Options
  document : List Markup.Node
  table : Table Fragment
  deriving Repr

namespace Compiler

def ofOptions (o : Options) : Compiler :=
  ⟨o, [], .empty⟩

def clear (c : Compiler) : Compiler :=
  { c with document := [], table := .empty }

def walk (c : Compiler) (tree : List Markup.Node) : Except SyntaxError Unit × Compiler :=
  match (Resolve.nodes c.options [] tree).run c.table with
  | .ok (document, table) => (.ok (), { c with document := document, table := table })
  | .error stop => (.error stop.error, { c with table := stop.table })

def parse (c : Compiler) (source : Text) : Except SyntaxError Unit × Compiler :=
  c.clear.walk (Markup.parse source)

theorem parse_of_resolved {c : Compiler} {source : Text} {document : List Markup.Node}
    {table : Table Fragment} (h : resolve c.options (Markup.parse source) = .ok (document, table)) :
    c.parse source = (.ok (), ⟨c.options, document, table⟩) := by
  have hnodes : (Resolve.nodes c.clear.options [] (Markup.parse source)).run c.clear.table =
      .ok (document, table) := h
  rw [parse, walk, hnodes]
  rfl

theorem parse_of_stopped {c : Compiler} {source : Text} {stop : Stop}
    (h : resolve c.options (Markup.parse source) = .error stop) :
    c.parse source = (.error stop.error, ⟨c.options, [], stop.table⟩) := by
  have hnodes : (Resolve.nodes c.clear.options [] (Markup.parse source)).run c.clear.table =
      .error stop := h
  rw [parse, walk, hnodes]
  rfl

/-- The code of the last template; none if its tree refers to code that is not in the table. -/
def output? (c : Compiler) : Option Text := do
  Markup.print? (← emit? c.table c.document)

end Compiler

def compile? (o : Options) (source : Text) : Except SyntaxError (Option Text) :=
  match (Compiler.ofOptions o).parse source with
  | (.ok _, c) => .ok c.output?
  | (.error e, _) => .error e

end Stencil.Template
