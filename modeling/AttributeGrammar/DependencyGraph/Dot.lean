import AttributeGrammar.DependencyGraph

/-! Dependency graphs in the DOT language.
Names and numbers stand as they are, unless they are words of the language; so does what is in angle
brackets. All else is in double quotes, with a backslash before every quote that has none.
-/
namespace AttributeGrammar.Dot

def isLetter (c : Char) : Bool := ('a' ≤ c && c ≤ 'z') || ('A' ≤ c && c ≤ 'Z') || c == '_'

def isDigit (c : Char) : Bool := '0' ≤ c && c ≤ '9'

def isIdentifier : List Char → Bool
  | [] => false
  | c :: rest => isLetter c && rest.all fun d => isLetter d || isDigit d

def isUnsigned : List Char → Bool
  | '.' :: digits => !digits.isEmpty && digits.all isDigit
  | text =>
    !(text.takeWhile isDigit).isEmpty && match text.dropWhile isDigit with
      | [] => true
      | '.' :: digits => digits.all isDigit
      | _ => false

def isNumeral : List Char → Bool
  | '-' :: rest => isUnsigned rest
  | text => isUnsigned text

def reserved : List String := ["node", "edge", "graph", "digraph", "subgraph", "strict"]

def isReserved (text : List Char) : Bool := reserved.contains (String.ofList (text.map Char.toLower))

def isBracketed (text : List Char) : Bool :=
  2 ≤ text.length && text.head? == some '<' && text.getLast? == some '>'

/-- `run` backslashes were read and are not written yet. -/
def escapeQuotes (run : Nat) : List Char → List Char
  | [] => List.replicate run '\\'
  | '\\' :: rest => escapeQuotes (run + 1) rest
  | '"' :: rest => List.replicate (2 * (run / 2)) '\\' ++ '\\' :: '"' :: escapeQuotes 0 rest
  | c :: rest => List.replicate run '\\' ++ c :: escapeQuotes 0 rest

def quote (value : String) : String :=
  let text := value.toList
  if isBracketed text then value
  else if (isIdentifier text || isNumeral text) && !isReserved text then value
  else String.ofList ('"' :: escapeQuotes 0 text ++ ['"'])

def attributes : NodeKind → String
  | .symbol => "shape=plaintext"
  | .ofAttribute indirect => "shape=ellipse style=" ++ (if indirect then "dashed" else "solid")

def nodeLine (node : GraphNode) : String :=
  "\t\t" ++ quote node.id ++ " [label=" ++ quote node.label ++ " " ++ attributes node.kind ++ "]\n"

def clusterLines (cluster : Cluster) : String :=
  "\tsubgraph cluster_" ++ toString cluster.place ++ " \x7b\n\t\tlabel=" ++ quote cluster.label ++
    " style=rounded\n" ++ String.join (cluster.nodes.map nodeLine) ++ "\t\x7d\n"

/-- The settings of the edges of a kind, by name. -/
def edgeSettings : EdgeKind → List (String × String)
  | .declared => []
  | .redecorated => [("color", "orange"), ("style", "dashed")]
  | .projected => [("color", "blue"), ("constraint", "false"), ("style", "dotted")]

/-- An edge is drawn solid, unless its settings say otherwise. -/
def lineStyle (kind : EdgeKind) : String := ((edgeSettings kind).lookup "style").getD "solid"

def edgeAttributes (kind : EdgeKind) : String :=
  match edgeSettings kind with
  | [] => ""
  | settings => " [" ++ String.intercalate " " (settings.map fun setting =>
      setting.1 ++ "=" ++ setting.2) ++ "]"

def edgeLine (edge : GraphEdge) : String :=
  "\t" ++ quote edge.source ++ " -> " ++ quote edge.target ++ edgeAttributes edge.kind ++ "\n"

def fontLine (part : String) : String := "\t" ++ part ++ " [fontname=\"Microsoft YaHei\"]\n"

def render (graph : DependencyGraph) : String :=
  "// " ++ graph.title ++ "\ndigraph \x7b\n\tlabel=" ++ quote graph.title ++ " rankdir=BT\n" ++
    fontLine "node" ++ fontLine "edge" ++ String.join (graph.clusters.map clusterLines) ++
    String.join (graph.edges.map edgeLine) ++ "\x7d\n"

end AttributeGrammar.Dot
