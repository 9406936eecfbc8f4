import Cloudkeeper.Web.ContentRenderer

/-! `result_to_graph`, with the part of networkx's `DiGraph` it calls, and the graphs
`respond_cytoscape` and `respond_graphml` build with it. -/

-- `js is None`
def Json.isNone : Json → Bool
  | .null => true
  | _ => false

namespace ContentRenderer

-- `d[k] = v` on a dict kept as its bindings in insertion order: a key present keeps its place.
def dictSet : List (PyStr × α) → PyStr → α → List (PyStr × α)
  | [], k, v => [(k, v)]
  | (k', v') :: d, k, v => if k' = k then (k', v) :: d else (k', v') :: dictSet d k v

-- `d.update(attr)`
def dictUpdate (d attr : List (PyStr × α)) : List (PyStr × α) :=
  attr.foldl (fun d kv => dictSet d kv.1 kv.2) d

/-- What `result_to_graph` reads from an item: its `type`, the node id or the edge's ends at their
`NodePath`s, `none` where a path is missing, and the dict `render_node` gives for the item. -/
inductive GraphItem where
  | node (uid : Option PyStr) (rendered : List (PyStr × Json))
  | edge (fromNode toNode : Option PyStr)
  | other

/-- A networkx `DiGraph` as `result_to_graph` fills it: its dicts `_node`, each node with its
attribute dict, and `_succ`, each node with the dict of its successors, all in insertion order.
`add_edge` is called without attributes, so every edge's data dict stays empty and a node's
successor dict is kept as its keys. `_pred` mirrors `_succ`, and nothing the serializers read
comes from it. -/
structure DiGraph where
  node : List (PyStr × List (PyStr × Json))
  succ : List (PyStr × List PyStr)

-- `TypeError: add_node() got multiple values for argument '{argument}'`
structure TypeError where
  argument : PyStr

namespace DiGraph

def empty : DiGraph :=
  ⟨[], []⟩

-- The named parameters of `add_node(self, node_for_adding, **attr)`.
def addNodeParams : List PyStr :=
  ["self", "node_for_adding"]

-- `add_node(n, **attr)`: Python binds the keys of `attr` in order and refuses the first that names
-- a parameter already given. A new node starts from an empty attribute dict and no successors.
def addNode (g : DiGraph) (n : PyStr) (attr : List (PyStr × Json)) : Except TypeError DiGraph :=
  match attr.find? (·.1 ∈ addNodeParams) with
  | some kv => .error ⟨kv.1⟩
  | none =>
    .ok <| match g.succ.lookup n with
      | some _ => { g with node := dictSet g.node n (dictUpdate ((g.node.lookup n).getD []) attr) }
      | none => ⟨g.node ++ [(n, dictUpdate [] attr)], g.succ ++ [(n, [])]⟩

-- `if u not in self._succ: ...` at the start of `add_edge`.
def addEnd (g : DiGraph) (n : PyStr) : DiGraph :=
  if (g.succ.lookup n).isSome then g else ⟨g.node ++ [(n, [])], g.succ ++ [(n, [])]⟩

-- `add_edge(u, v)`: `self._succ[u][v] = datadict` adds `v` to the successors of `u` once.
def addEdge (g : DiGraph) (u v : PyStr) : DiGraph :=
  let g := (g.addEnd u).addEnd v
  let vs := (g.succ.lookup u).getD []
  { g with succ := dictSet g.succ u (if v ∈ vs then vs else vs ++ [v]) }

-- `G.edges`: networkx walks `_succ`, each node's successors in turn.
def edges (g : DiGraph) : List (PyStr × PyStr) :=
  g.succ.flatMap fun uvs => uvs.2.map (uvs.1, ·)

end DiGraph

-- One turn of the `async for` loop of `result_to_graph`.
def graphStep (g : DiGraph) : GraphItem → Except TypeError DiGraph
  | .node uid rendered =>
    match truthy uid with
    | some uid => g.addNode uid rendered
    | none => .ok g
  | .edge fromNode toNode =>
    match truthy fromNode, truthy toNode with
    | some fromNode, some toNode => .ok (g.addEdge fromNode toNode)
    | _, _ => .ok g
  | .other => .ok g

-- An exception of `add_node` ends the loop and leaves `result_to_graph`.
def resultToGraph (items : List GraphItem) : Except TypeError DiGraph :=
  items.foldlM graphStep DiGraph.empty

/-- An item of the stream as the serializers' `render_node` reads it: a node's id and its `reported`
section, `{}` where that is missing (`value_in_path_get(js, NodePath.reported, {})`). -/
inductive StreamItem where
  | node (uid : Option PyStr) (reported : List (PyStr × Json))
  | edge (fromNode toNode : Option PyStr)
  | other

-- `render_node(item)` on a node item's `reported` section.
def StreamItem.toGraphItem (renderNode : List (PyStr × Json) → List (PyStr × Json)) : StreamItem → GraphItem
  | .node uid reported => .node uid (renderNode reported)
  | .edge fromNode toNode => .edge fromNode toNode
  | .other => .other

-- The graph `respond_cytoscape` hands to `cytoscape_data`: a node keeps its `reported` section.
def cytoscapeGraph (items : List StreamItem) : Except TypeError DiGraph :=
  resultToGraph (items.map (StreamItem.toGraphItem id))

-- `no_nested_props` of `respond_graphml`
def noNestedProps (reported : List (PyStr × Json)) : List (PyStr × Json) :=
  reported.filter fun kv => !kv.2.isNone && !kv.2.isStructured

-- The graph `respond_graphml` hands to `generate_graphml`.
def graphmlGraph (items : List StreamItem) : Except TypeError DiGraph :=
  resultToGraph (items.map (StreamItem.toGraphItem noNestedProps))

end ContentRenderer
