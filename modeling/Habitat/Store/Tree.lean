import Habitat.Store.Basic
import Habitat.Json.Basic
import Habitat.Decimal.Format

/-!
# What a value looks like

`Store.tree` unfolds a value into a finite tree: its contents at one moment, without references.
Texts and documents are made from trees.

* `Store.text`: a value in messages
* `Store.json`: a value in documents; agents and species become their names
-/
namespace Habitat

/-- The visible contents of a value. `cut` stands for what lies below the unfolded depth, which
only a container that contains itself can reach. -/
inductive Tree where
  | nil
  | bool (b : Bool)
  | int (n : Int64)
  | float (x : Float)
  | str (s : String)
  | point (x y : Float)
  | pair (key value : Tree)
  | list (content : BaseType) (items : List Tree)
  | map (key content : BaseType) (entries : List (Tree × Tree))
  | matrix (cols rows : Nat) (content : BaseType) (lines : List (List Tree))
  | graph (vertices : List Tree) (edges : List (Tree × Tree × Float))
  | agent (name : String)
  | species (name : String)
  | cut

/-- The tree of a value, given the trees of the containers it refers to. -/
def Value.treeWith (list map matrix graph : Nat → Tree) : Value → Tree
  | .nil => .nil
  | .bool b => .bool b
  | .int n => .int n
  | .float x => .float x
  | .str s => .str s
  | .point x y => .point x y
  | .pair k v => .pair (k.treeWith list map matrix graph) (v.treeWith list map matrix graph)
  | .list r => list r
  | .map r => map r
  | .matrix r => matrix r
  | .graph r => graph r
  | .agent a => .agent a.name
  | .species n => .species n

namespace Store

/-- The tree of a value down to `n` nested containers. -/
def treeAt (s : Store) : Nat → Value → Tree
  | 0 => Value.treeWith (fun _ => .cut) (fun _ => .cut) (fun _ => .cut) (fun _ => .cut)
  | n + 1 =>
    Value.treeWith
      (fun r => let c := s.lists.get r; .list c.content (c.items.toList.map (s.treeAt n)))
      (fun r => let c := s.maps.get r
        .map c.key c.content (c.entries.map fun (k, v) => (s.treeAt n k, s.treeAt n v)))
      (fun r => let c := s.matrices.get r
        .matrix c.cols c.rows c.content
          ((List.range c.rows).map fun i => (c.row i).map (s.treeAt n)))
      (fun r => let c := s.graphs.get r
        .graph (c.vertices.map (s.treeAt n))
          (c.edges.map fun e => (s.treeAt n e.source, s.treeAt n e.target, e.weight)))

/-- The whole tree of a value. -/
def tree (s : Store) (v : Value) : Tree := s.treeAt s.size v

end Store

namespace Tree

/-- The text of a float. -/
def floatText (x : Float) : String := Decimal.FloatFormat.display.text x

mutual

/-- The text of a value. -/
def text : Tree → String
  | .nil => "nil"
  | .bool b => if b then "true" else "false"
  | .int n => toString n.toInt
  | .float x => floatText x
  | .str s => s
  | .point x y => "\x7b" ++ floatText x ++ "," ++ floatText y ++ "\x7d"
  | .pair k v => k.text ++ "::" ++ v.text
  | .list _ items => "[" ++ ",".intercalate (texts items) ++ "]"
  | .map _ _ entries => "[" ++ ",".intercalate (entryTexts entries) ++ "]"
  | .matrix _ _ _ lines => "[" ++ ";".intercalate (lineTexts lines) ++ "]"
  | .graph vertices edges =>
    "graph(" ++ toString vertices.length ++ " vertices, " ++ toString edges.length ++ " edges)"
  | .agent name => name
  | .species name => name
  | .cut => "..."

def texts : List Tree → List String
  | [] => []
  | t :: rest => t.text :: texts rest

def entryTexts : List (Tree × Tree) → List String
  | [] => []
  | (k, v) :: rest => (k.text ++ "::" ++ v.text) :: entryTexts rest

def lineTexts : List (List Tree) → List String
  | [] => []
  | line :: rest => ",".intercalate (texts line) :: lineTexts rest

end

mutual

/-- The document of a value. -/
def json : Tree → Json
  | .nil | .cut => .null
  | .bool b => .bool b
  | .int n => .int n.toInt
  | .float x => .ofFloat x
  | .str s => .str s
  | .point x y => .obj [("x", .ofFloat x), ("y", .ofFloat y)]
  | .pair k v => .arr [k.json, v.json]
  | .list _ items => .arr (jsons items)
  | .map _ _ entries => .obj (entryJsons entries [])
  | .matrix _ _ _ lines => .arr (lineJsons lines)
  | .graph vertices edges =>
    .obj [("vertices", .arr (jsons vertices)), ("edges", .arr (edgeJsons edges))]
  | .agent name => .str name
  | .species name => .str name

def jsons : List Tree → List Json
  | [] => []
  | t :: rest => t.json :: jsons rest

/-- The fields of a map, whose keys become names. -/
def entryJsons : List (Tree × Tree) → List (String × Json) → List (String × Json)
  | [], done => done
  | (k, v) :: rest, done => entryJsons rest (Json.putField k.text v.json done)

def lineJsons : List (List Tree) → List Json
  | [] => []
  | line :: rest => .arr (jsons line) :: lineJsons rest

def edgeJsons : List (Tree × Tree × Float) → List Json
  | [] => []
  | (s, t, w) :: rest => .arr [s.json, t.json, .ofFloat w] :: edgeJsons rest

end
end Tree

namespace Store

/-- The text of a value. -/
def text (s : Store) (v : Value) : String := (s.tree v).text

/-- The document of a value. -/
def json (s : Store) (v : Value) : Json := (s.tree v).json

end Store
end Habitat
