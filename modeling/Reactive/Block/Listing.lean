/-
The code that a view stands for.

Each node of a view has a factory named after its kind and number.  Inner
nodes come before the nodes that use them, and a root that mounts the
outermost nodes comes last.

* `Block.factories` — the nodes with the names of their factories, in order;
* `Block.listing` — the whole as text.
-/
import Reactive.Bits
import Reactive.Expr.Printer
import Reactive.Text.Quoted
import Reactive.View.Basic

namespace Reactive

/-- The word for the kind of a node. -/
def View.Node.kindText : View.Node → Text
  | .fixed .. => "staticText"
  | .text .. => "text"
  | .elem .. => "elem"
  | .cond .. => "if"
  | .each .. => "each"
  | .fragment .. => "fragment"

/-- The name of the factory of a node. -/
def View.Node.factoryName (n : View.Node) : Text :=
  "create_" ++ n.kindText ++ "_" ++ Text.ofNat n.id

namespace Block

open View

mutual

/-- A node and the nodes below it, inner nodes first. -/
def nodesOf : Node → List Node
  | .fixed i v => [.fixed i v]
  | .text i b => [.text i b]
  | .elem i t as ts hs children => nodesOfAll children ++ [.elem i t as ts hs children]
  | .cond i bs other => nodesOfBranches bs ++ nodesOfOtherwise other ++ [.cond i bs other]
  | .each i l x y body => nodesOf body ++ [.each i l x y body]
  | .fragment i children => nodesOfAll children ++ [.fragment i children]

/-- Several nodes and the nodes below them. -/
def nodesOfAll : List Node → List Node
  | [] => []
  | n :: r => nodesOf n ++ nodesOfAll r

/-- The nodes of some branches. -/
def nodesOfBranches : List Branch → List Node
  | [] => []
  | b :: r => nodesOfBranch b ++ nodesOfBranches r

/-- The nodes of a branch. -/
def nodesOfBranch : Branch → List Node
  | .mk _ body => nodesOf body

/-- The nodes for when no condition holds. -/
def nodesOfOtherwise : Otherwise → List Node
  | .nothing => []
  | .body n => nodesOf n

end

/-- The nodes of a view with the names of their factories, inner nodes first. -/
def factories (ns : List Node) : Dict Node := (nodesOfAll ns).map fun n => (n.factoryName, n)

/-! ### Text -/

/-- A line at a depth. -/
def line (depth : Nat) (t : Text) : Text := Text.repeated depth "  " ++ t ++ "\n"

/-- A mask with the names of its keys. -/
def maskLiteral (bits : Bits) (m : Mask) : Text :=
  match bits.names m with
  | [] => "0"
  | names => "0b" ++ Text.ofNatBinary m.toNat ++ " /* " ++ Text.join ", " names ++ " */"

/-- The evaluation of an expression. -/
def evalCall (e : Expr) : Text := "ctx.eval(state, () => " ++ e.text ++ ")"

/-- The first line of a factory. -/
def openFactory (name : Text) : Text := line 0 ("function " ++ name ++ "(ctx, state) \x7b")

/-- The last lines of a factory. -/
def closeFactory : Text := line 1 "\x7d;" ++ line 0 "\x7d" ++ "\n"

/-- A list of calls of factories. -/
def calls (names : List Text) : Text := Text.join ", " (names.map fun n => n ++ "(ctx, state)")

/-- The number of a mask. -/
def maskNumber (m : Mask) : Text := Text.ofNat m.toNat

/-- The factory of a fixed text. -/
def fixedListing (value : Text) : Text :=
  line 1 "let node;" ++ line 1 "return \x7b" ++
  line 2 ("m(target, anchor) \x7b node = text(" ++ Text.quote value ++
    "); insert(target, node, anchor); \x7d,") ++
  line 2 "p() \x7b\x7d," ++ line 2 "d() \x7b detach(node); \x7d,"

/-- The factory of a text with a binding. -/
def textListing (bits : Bits) (b : Binding) : Text :=
  line 1 ("const mask = " ++ maskLiteral bits (bits.mask b.state) ++ ";") ++
  line 1 "let node;" ++ line 1 "return \x7b" ++
  line 2 ("m(target, anchor) \x7b node = text(display(" ++ evalCall b.expr ++
    ")); insert(target, node, anchor); \x7d,") ++
  line 2 ("p(dirty, state) \x7b if (dirty & mask) set_data(node, display(" ++ evalCall b.expr ++
    ")); \x7d,") ++
  line 2 "d() \x7b detach(node); \x7d,"

/-- A statement that is run if a binding has to be evaluated again; none if it never has. -/
def guardedLine (bits : Bits) (b : Binding) (test statement : Text) : Text :=
  if !b.loc.isEmpty then line 3 statement
  else if bits.mask b.state != 0 then line 3 ("if (dirty & " ++ test ++ ") " ++ statement)
  else []

/-- The statement that writes a bound attribute. -/
def attrStatement (name : Text) (b : Binding) : Text :=
  "attr(node, " ++ Text.quote name ++ ", " ++ evalCall b.expr ++ ");"

/-- The statement that switches a class. -/
def toggleStatement (t : Toggle) : Text :=
  "toggle_class(node, " ++ Text.quote t.token ++ ", " ++ evalCall t.binding.expr ++ ");"

/-- The factory of an element. -/
def elemListing (bits : Bits) (tag : Text) (attrs : List Attr) (toggles : List Toggle)
    (handlers : List Handler) (children : List Text) : Text :=
  let bound := boundAttrs attrs
  let attrName (i : Nat) : Text := "attr_" ++ Text.ofNat i
  line 1 "let node, offs = [];" ++
  line 1 ("const children = [" ++ calls children ++ "];") ++
  (bound.mapIdx fun i p =>
    line 1 ("const " ++ attrName i ++ " = \x7b mask: " ++ maskNumber (bits.mask p.2.state) ++
      ", local: " ++ (if p.2.loc.isEmpty then "false" else "true") ++ " \x7d;")).flatten ++
  line 1 "return \x7b" ++ line 2 "m(target, anchor) \x7b" ++
  line 3 ("node = element(" ++ Text.quote tag ++ ");") ++
  ((fixedAttrs attrs).flatMap fun a =>
    line 3 ("attr(node, " ++ Text.quote a.1 ++ ", " ++ Text.quote a.2 ++ ");")) ++
  (bound.flatMap fun p => line 3 (attrStatement p.1 p.2)) ++
  (toggles.flatMap fun t => line 3 (toggleStatement t)) ++
  (handlers.flatMap fun h => line 3 ("offs.push(listen(node, " ++ Text.quote h.event ++
    ", (event) => " ++ h.binding.expr.text ++ "));")) ++
  line 3 "for (const c of children) c.m(node, null);" ++
  line 3 "insert(target, node, anchor);" ++
  line 2 "\x7d," ++ line 2 "p(dirty, state) \x7b" ++
  (bound.mapIdx fun i p =>
    guardedLine bits p.2 (attrName i ++ ".mask") (attrStatement p.1 p.2)).flatten ++
  (toggles.flatMap fun t =>
    guardedLine bits t.binding (maskNumber (bits.mask t.binding.state)) (toggleStatement t)) ++
  line 3 "for (const c of children) c.p(dirty, state);" ++
  line 2 "\x7d," ++
  line 2 "d() \x7b for (const off of offs) off(); for (const c of children) c.d(); detach(node); \x7d,"

/-- The bodies of the branches of a choice. -/
def bodiesOf : List Branch → Otherwise → List Node
  | [], .nothing => []
  | [], .body n => [n]
  | .mk _ body :: r, other => body :: bodiesOf r other

/-- The factory of a choice. -/
def condListing (bits : Bits) (tests : List Binding) (bodies : List Text) : Text :=
  let mask := bits.mask (tests.flatMap (·.state))
  line 1 ("const mask = " ++ maskLiteral bits mask ++ ";") ++
  line 1 ("const branches = [" ++ Text.join ", " bodies ++ "];") ++
  line 1 "function select(state) \x7b" ++
  (tests.mapIdx fun i t =>
    line 2 ("if (" ++ evalCall t.expr ++ ") return " ++ Text.ofNat i ++ ";")).flatten ++
  (if bodies.length > tests.length then line 2 ("return " ++ Text.ofNat tests.length ++ ";")
    else line 2 "return -1;") ++
  line 1 "\x7d" ++
  line 1 "let anchor_node, key = -1, current = null;" ++
  line 1 "return \x7b" ++ line 2 "m(target, before) \x7b" ++
  line 3 "anchor_node = anchor(); insert(target, anchor_node, before);" ++
  line 3 "key = select(state);" ++
  line 3 "if (key >= 0) \x7b current = branches[key](ctx, state); current.m(target, anchor_node); \x7d" ++
  line 2 "\x7d," ++ line 2 "p(dirty, state) \x7b" ++ line 3 "if (dirty & mask) \x7b" ++
  line 4 "const next = select(state);" ++ line 4 "if (next !== key) \x7b" ++
  line 5 "if (current) current.d();" ++
  line 5 "key = next; current = key >= 0 ? branches[key](ctx, state) : null;" ++
  line 5 "if (current) current.m(anchor_node.parentNode, anchor_node);" ++
  line 5 "return;" ++ line 4 "\x7d" ++ line 3 "\x7d" ++
  line 3 "if (current) current.p(dirty, state);" ++
  line 2 "\x7d," ++ line 2 "d() \x7b if (current) current.d(); detach(anchor_node); \x7d,"

/-- The factory of a loop. -/
def eachListing (bits : Bits) (list : Binding) (item index body : Text) : Text :=
  let locals := if index.isEmpty then item else item ++ ", " ++ index
  line 1 ("const mask = " ++ maskNumber (bits.mask list.state) ++ ";") ++
  line 1 "let anchor_node, children = [];" ++
  line 1 "function build(state) \x7b" ++
  line 2 ("(" ++ evalCall list.expr ++ " || []).forEach((" ++ locals ++ ") => \x7b") ++
  line 3 ("const child = " ++ body ++ "(ctx.with(\x7b " ++ locals ++ " \x7d), state);") ++
  line 3 "child.m(anchor_node.parentNode, anchor_node);" ++
  line 3 "children.push(child);" ++
  line 2 "\x7d);" ++ line 1 "\x7d" ++ line 1 "return \x7b" ++
  line 2 ("m(target, before) \x7b anchor_node = anchor(); " ++
    "insert(target, anchor_node, before); build(state); \x7d,") ++
  line 2 "p(dirty, state) \x7b" ++
  line 3 "if (!(dirty & mask)) \x7b for (const c of children) c.p(dirty, state); return; \x7d" ++
  line 3 "for (const c of children) c.d();" ++
  line 3 "children = [];" ++ line 3 "build(state);" ++ line 2 "\x7d," ++
  line 2 "d() \x7b for (const c of children) c.d(); detach(anchor_node); \x7d,"

/-- The factory of several nodes with one anchor. -/
def fragmentListing (children : List Text) : Text :=
  line 1 ("const anchor_node = anchor(), children = [" ++ calls children ++ "];") ++
  line 1 "return \x7b" ++
  line 2 ("m(target, before) \x7b insert(target, anchor_node, before); " ++
    "for (const c of children) c.m(target, anchor_node); \x7d,") ++
  line 2 "p(dirty, state) \x7b for (const c of children) c.p(dirty, state); \x7d," ++
  line 2 "d() \x7b for (const c of children) c.d(); detach(anchor_node); \x7d,"

/-- The factory of a node, without those of the nodes below it. -/
def nodeListing (bits : Bits) (n : Node) : Text :=
  openFactory n.factoryName ++
  (match n with
    | .fixed _ v => fixedListing v
    | .text _ b => textListing bits b
    | .elem _ tag attrs toggles handlers children =>
      elemListing bits tag attrs toggles handlers (children.map (·.factoryName))
    | .cond _ bs other =>
      condListing bits (testsOf bs) ((bodiesOf bs other).map (·.factoryName))
    | .each _ list item index body => eachListing bits list item index body.factoryName
    | .fragment _ children => fragmentListing (children.map (·.factoryName))) ++
  closeFactory

/-- The root, which mounts the outermost nodes in order. -/
def rootListing (names : List Text) : Text :=
  line 0 "function create_root(ctx, state) \x7b" ++
  line 1 ("const children = [" ++ calls names ++ "];") ++
  line 1 "return \x7b" ++
  line 2 "m(target, anchor) \x7b for (const c of children) c.m(target, anchor); \x7d," ++
  line 2 "p(dirty, state) \x7b for (const c of children) c.p(dirty, state); \x7d," ++
  line 2 "d() \x7b for (const c of children) c.d(); \x7d," ++
  line 1 "\x7d;" ++ line 0 "\x7d"

/-- The code of a view. -/
def listing (bits : Bits) (ns : List Node) : Text :=
  (nodesOfAll ns).flatMap (nodeListing bits) ++ rootListing (ns.map (·.factoryName))

end Block

end Reactive
