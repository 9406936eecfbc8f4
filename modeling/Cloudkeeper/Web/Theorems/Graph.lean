import Cloudkeeper.Web.Graph
import Cloudkeeper.Web.Theorems.DotLoop
import Mathlib.Data.List.Forall2

/-! The graph `result_to_graph` builds is a function of the stream alone. It raises `add_node`'s
`TypeError` at the first node item whose dict has a key naming a parameter of `add_node`. Otherwise
its nodes are the ids the stream names, as a node or as an edge's end, in the order they first
occur, each with the attributes of all its node items merged in stream order, and each node's
successors are the other ends of its edges in the order they first occur, so that networkx lists
the edges node by node. The graphs `respond_cytoscape` and `respond_graphml` build from one stream
differ only in the attributes `no_nested_props` drops. -/

namespace ContentRenderer

-- The node ids of the items `add_node` or `add_edge` is called with.
def GraphItem.ends : GraphItem → List PyStr
  | .node uid _ => (truthy uid).toList
  | .edge fromNode toNode =>
    match truthy fromNode, truthy toNode with
    | some fromNode, some toNode => [fromNode, toNode]
    | _, _ => []
  | .other => []

def GraphItem.edge? : GraphItem → Option (PyStr × PyStr)
  | .edge fromNode toNode =>
    match truthy fromNode, truthy toNode with
    | some fromNode, some toNode => some (fromNode, toNode)
    | _, _ => none
  | _ => none

-- The attributes an item gives the node `n`.
def GraphItem.attrsFor (n : PyStr) : GraphItem → List (PyStr × Json)
  | .node uid rendered => if truthy uid = some n then rendered else []
  | _ => []

-- The key of a node item's dict that `add_node` refuses, where `add_node` is called.
def GraphItem.clash : GraphItem → Option PyStr
  | .node uid rendered =>
    (truthy uid).bind fun _ => (rendered.find? (·.1 ∈ DiGraph.addNodeParams)).map Prod.fst
  | _ => none

namespace DiGraph

-- The successors of `u` along the edges `E`, in the order they first occur.
def succOf (E : List (PyStr × PyStr)) (u : PyStr) : List PyStr :=
  firstSeen (E.filterMap fun e => if e.1 = u then some e.2 else none)

/-- The graph of the ids `N` in first-seen order, node `n` with the attributes `A n` and with its
successors along the edges `E`. -/
def view (N : List PyStr) (A : PyStr → List (PyStr × Json)) (E : List (PyStr × PyStr)) : DiGraph :=
  ⟨(firstSeen N).map fun n => (n, A n), (firstSeen N).map fun n => (n, succOf E n)⟩

end DiGraph

section Dict

variable {β : Type} {f : PyStr → β} {u : PyStr}

theorem lookup_map_pair : ∀ keys : List PyStr,
    (keys.map fun n => (n, f n)).lookup u = if u ∈ keys then some (f u) else none
  | [] => rfl
  | k :: keys => by
    by_cases h : u = k
    · subst h
      simp [List.lookup_cons]
    · simp [List.lookup_cons, beq_false_of_ne h, h, lookup_map_pair keys]

theorem dictSet_map_pair (w : β) : ∀ keys : List PyStr, keys.Nodup → u ∈ keys →
    dictSet (keys.map fun n => (n, f n)) u w = keys.map fun n => (n, if n = u then w else f n)
  | k :: keys, hnd, hu => by
    obtain ⟨hk, hnd⟩ := List.nodup_cons.mp hnd
    by_cases h : k = u
    · subst h
      simp only [List.map_cons, dictSet, if_true, List.cons.injEq, true_and]
      exact List.map_congr_left fun n hn => by rw [if_neg (ne_of_mem_of_not_mem hn hk)]
    · have hu : u ∈ keys := (List.mem_cons.mp hu).resolve_left (Ne.symm h)
      simp only [List.map_cons, dictSet, h, if_false, dictSet_map_pair w keys hnd hu]

theorem dictUpdate_nil (d : List (PyStr × β)) : dictUpdate d [] = d :=
  rfl

theorem dictUpdate_append (d a b : List (PyStr × β)) : dictUpdate d (a ++ b) = dictUpdate (dictUpdate d a) b :=
  List.foldl_append _ _ _ _

theorem mem_dictSet {kv : PyStr × β} : ∀ {d : List (PyStr × β)} {k : PyStr} {v : β},
    kv ∈ dictSet d k v → kv ∈ d ∨ kv = (k, v)
  | [], _, _, h => .inr (List.mem_singleton.mp h)
  | (k', v') :: d, k, v, h => by
    unfold dictSet at h
    split at h
    case isTrue hk =>
      subst hk
      rcases List.mem_cons.mp h with rfl | h
      · exact .inr rfl
      · exact .inl (.tail _ h)
    case isFalse =>
      rcases List.mem_cons.mp h with rfl | h
      · exact .inl (.head _)
      · exact (mem_dictSet h).imp (.tail _) id

-- What `update` leaves in a dict was there before or is one of the new bindings.
theorem mem_dictUpdate {kv : PyStr × β} : ∀ (a d : List (PyStr × β)), kv ∈ dictUpdate d a → kv ∈ d ∨ kv ∈ a
  | [], _, h => .inl h
  | (k, v) :: a, d, h => by
    rcases mem_dictUpdate a (dictSet d k v) h with h | h
    · rcases mem_dictSet h with h | rfl
      · exact .inl h
      · exact .inr (.head _)
    · exact .inr (.tail _ h)

theorem lookup_cons_of_ne {x k : PyStr} {v : β} {l : List (PyStr × β)} (h : x ≠ k) :
    ((k, v) :: l).lookup x = l.lookup x := by
  simp [List.lookup_cons, beq_eq_false_iff_ne.mpr h]

theorem lookup_dictSet (x : PyStr) : ∀ (d : List (PyStr × β)) (k : PyStr) (v : β),
    (dictSet d k v).lookup x = if x = k then some v else d.lookup x
  | [], k, v => by by_cases h : x = k <;> simp [dictSet, h, lookup_cons_of_ne]
  | (k', v') :: d, k, v => by
    by_cases hk : k' = k
    · subst hk
      by_cases h : x = k' <;> simp [dictSet, h, lookup_cons_of_ne]
    · by_cases h : x = k'
      · subst h
        simp [dictSet, hk]
      · simp [dictSet, hk, lookup_cons_of_ne h, lookup_dictSet x d k v]

-- The last binding of a key wins.
theorem lookup_dictUpdate (x : PyStr) : ∀ (a d : List (PyStr × β)),
    (dictUpdate d a).lookup x = (a.reverse.lookup x).or (d.lookup x)
  | [], d => rfl
  | (k, v) :: a, d => by
    rw [dictUpdate, List.foldl_cons, ← dictUpdate, lookup_dictUpdate x a, lookup_dictSet, List.reverse_cons,
      List.lookup_append]
    cases a.reverse.lookup x <;> by_cases h : x = k <;> simp [h, lookup_cons_of_ne]

theorem keys_dictSet {k : PyStr} {v : β} : ∀ d : List (PyStr × β),
    (dictSet d k v).map Prod.fst = if k ∈ d.map Prod.fst then d.map Prod.fst else d.map Prod.fst ++ [k]
  | [] => rfl
  | (k', v') :: d => by
    by_cases hk : k' = k
    · simp [dictSet, hk]
    · by_cases hm : k ∈ d.map Prod.fst <;> simp [dictSet, hk, Ne.symm hk, keys_dictSet d, hm]

theorem keys_nodup_dictUpdate : ∀ (a d : List (PyStr × β)), (d.map Prod.fst).Nodup →
    ((dictUpdate d a).map Prod.fst).Nodup
  | [], _, h => h
  | (k, v) :: a, d, h => keys_nodup_dictUpdate a _ (by
    rw [keys_dictSet]
    split_ifs with hk
    exacts [h, by simpa using h.concat hk])

theorem lookup_of_mem : ∀ {l : List (PyStr × β)} {kv : PyStr × β}, (l.map Prod.fst).Nodup → kv ∈ l →
    l.lookup kv.1 = some kv.2
  | (k, v) :: l, kv, hnd, hkv => by
    obtain ⟨hk, hnd⟩ := List.nodup_cons.mp hnd
    rcases List.mem_cons.mp hkv with rfl | hkv
    · exact List.lookup_cons_self
    · have hne : kv.1 ≠ k := fun h => hk (List.mem_map.mpr ⟨kv, hkv, h⟩)
      rw [lookup_cons_of_ne hne, lookup_of_mem hnd hkv]

theorem mem_of_lookup {l : List (PyStr × β)} {k : PyStr} {v : β} (h : l.lookup k = some v) : (k, v) ∈ l := by
  obtain ⟨l₁, l₂, rfl, -⟩ := List.lookup_eq_some_iff.mp h
  simp

theorem lookup_filter_of {p : PyStr × β → Bool} {l : List (PyStr × β)} {k : PyStr} {v : β}
    (h : l.lookup k = some v) (hp : p (k, v)) : (l.filter p).lookup k = some v := by
  obtain ⟨l₁, l₂, rfl, h₁⟩ := List.lookup_eq_some_iff.mp h
  exact List.lookup_eq_some_iff.mpr ⟨l₁.filter p, l₂.filter p, by simp [List.filter_cons, hp],
    fun q hq => h₁ q (List.mem_filter.mp hq).1⟩

-- What `update` keeps of the bindings `p` passes, it keeps too when given only those.
theorem mem_dictUpdate_filter {p : PyStr × β → Bool} {a : List (PyStr × β)} {kv : PyStr × β}
    (h : kv ∈ dictUpdate [] a) (hp : p kv) : kv ∈ dictUpdate [] (a.filter p) := by
  have hl := lookup_of_mem (keys_nodup_dictUpdate a [] List.nodup_nil) h
  rw [lookup_dictUpdate, List.lookup_nil, Option.or_none] at hl
  apply mem_of_lookup
  rw [lookup_dictUpdate, ← List.filter_reverse, lookup_filter_of hl hp]
  rfl

end Dict

namespace DiGraph

section View

variable {N : List PyStr} {A : PyStr → List (PyStr × Json)} {E : List (PyStr × PyStr)} {u v : PyStr}

-- No attributes and no edges for a node not yet named.
structure Fresh (N : List PyStr) (A : PyStr → List (PyStr × Json)) (E : List (PyStr × PyStr)) : Prop where
  attrs : ∀ n ∉ N, A n = []
  edges : ∀ e ∈ E, e.1 ∈ N

theorem Fresh.append (h : Fresh N A E) (M : List PyStr) : Fresh (N ++ M) A E :=
  ⟨fun n hn => h.attrs n fun hN => hn (List.mem_append_left _ hN),
    fun e he => List.mem_append_left _ (h.edges e he)⟩

theorem Fresh.succOf (h : Fresh N A E) (hu : u ∉ N) : succOf E u = [] := by
  have : E.filterMap (fun e => if e.1 = u then some e.2 else none) = [] :=
    List.filterMap_eq_nil_iff.mpr fun e he => if_neg fun (heu : e.1 = u) => hu (heu ▸ h.edges e he)
  rw [DiGraph.succOf, this]
  rfl

theorem succOf_append_edge (n : PyStr) :
    succOf (E ++ [(u, v)]) n =
      if n = u then (if v ∈ succOf E u then succOf E u else succOf E u ++ [v]) else succOf E n := by
  by_cases hn : n = u
  · subst hn
    have h : succOf (E ++ [(n, v)]) n =
        firstSeen ((E.filterMap fun e => if e.1 = n then some e.2 else none) ++ [v]) := by
      simp [succOf]
    rw [h, if_pos rfl]
    split_ifs with hv
    · exact firstSeen_append_of_mem (mem_firstSeen.mp hv)
    · exact firstSeen_append_of_not_mem (mt mem_firstSeen.mpr hv)
  · simp [succOf, hn, Ne.symm hn]

theorem lookup_view (n : PyStr) :
    ((view N A E).node.lookup n) = if n ∈ N then some (A n) else none := by
  simp only [view, lookup_map_pair, mem_firstSeen]

theorem lookup_view_succ (n : PyStr) :
    ((view N A E).succ.lookup n) = if n ∈ N then some (succOf E n) else none := by
  simp only [view, lookup_map_pair, mem_firstSeen]

theorem view_addEnd (h : Fresh N A E) : (view N A E).addEnd u = view (N ++ [u]) A E := by
  by_cases hu : u ∈ N
  · simp [addEnd, lookup_view_succ, hu, view, firstSeen_append_of_mem hu, mem_firstSeen]
  · simp [addEnd, lookup_view_succ, hu, view, firstSeen_append_of_not_mem hu, h.attrs u hu, h.succOf hu,
      mem_firstSeen]

theorem view_addEdge (h : Fresh N A E) : (view N A E).addEdge u v = view (N ++ [u, v]) A (E ++ [(u, v)]) := by
  have hends : ((view N A E).addEnd u).addEnd v = view (N ++ [u, v]) A E := by
    rw [view_addEnd h, view_addEnd (h.append [u]), List.append_assoc, List.singleton_append]
  have hu : u ∈ firstSeen (N ++ [u, v]) := mem_firstSeen.mpr (by simp)
  simp only [addEdge, hends, lookup_view_succ, mem_firstSeen.mp hu, if_true, Option.getD_some]
  simp only [view, mk.injEq, true_and]
  rw [dictSet_map_pair _ _ (nodup_firstSeen _) hu]
  exact List.map_congr_left fun n _ => by rw [succOf_append_edge]

theorem view_addNode (h : Fresh N A E) {a : List (PyStr × Json)}
    (ha : a.find? (·.1 ∈ addNodeParams) = none) :
    (view N A E).addNode u a = .ok (view (N ++ [u]) (fun n => if n = u then dictUpdate (A n) a else A n) E) := by
  by_cases hu : u ∈ N
  · have hnd := nodup_firstSeen N
    simp only [addNode, ha, lookup_view_succ, lookup_view, hu, if_true, Option.getD_some]
    simp only [view, firstSeen_append_of_mem hu, Except.ok.injEq, mk.injEq, and_true]
    rw [dictSet_map_pair _ _ hnd (mem_firstSeen.mpr hu)]
    exact List.map_congr_left fun n _ => by split_ifs with h <;> simp [h]
  · simp only [addNode, ha, lookup_view_succ, hu, if_false]
    simp only [view, firstSeen_append_of_not_mem hu, List.map_append, List.map_singleton, if_true,
      h.attrs u hu, h.succOf hu, Except.ok.injEq, mk.injEq]
    refine ⟨?_, trivial⟩
    congr 1
    exact List.map_congr_left fun n hn => by rw [if_neg (ne_of_mem_of_not_mem hn (mt mem_firstSeen.mp hu))]

end View

end DiGraph

section Loop

open DiGraph

variable {N : List PyStr} {A : PyStr → List (PyStr × Json)} {E : List (PyStr × PyStr)}

theorem attrsFor_of_not_mem {n : PyStr} (r : GraphItem) (h : n ∉ r.ends) : r.attrsFor n = [] := by
  cases r with
  | node uid rendered =>
    cases hu : truthy uid with
    | none => simp [GraphItem.attrsFor, hu]
    | some u =>
      have : n ≠ u := fun he => h (by simp [GraphItem.ends, hu, he])
      simp [GraphItem.attrsFor, hu, Ne.symm this]
  | edge => rfl
  | other => rfl

theorem edge?_ends {r : GraphItem} {e : PyStr × PyStr} (h : r.edge? = some e) : e.1 ∈ r.ends ∧ e.2 ∈ r.ends := by
  match r, h with
  | .edge fromNode toNode, h =>
    cases hf : truthy fromNode <;> cases ht : truthy toNode <;> simp [GraphItem.edge?, hf, ht] at h
    subst h
    simp [GraphItem.ends, hf, ht]

-- One turn of the loop on a view raises the item's clash, or adds its ids, attributes and edge.
theorem graphStep_view (h : Fresh N A E) (r : GraphItem) :
    graphStep (view N A E) r =
      match r.clash with
      | some k => .error ⟨k⟩
      | none => .ok (view (N ++ r.ends) (fun n => dictUpdate (A n) (r.attrsFor n)) (E ++ r.edge?.toList)) := by
  cases r with
  | node uid rendered =>
    cases hu : truthy uid with
    | none =>
      simp [graphStep, GraphItem.clash, GraphItem.ends, GraphItem.attrsFor, GraphItem.edge?, hu, dictUpdate_nil]
    | some u =>
      cases hk : rendered.find? (·.1 ∈ addNodeParams) with
      | some kv => simp [graphStep, GraphItem.clash, hu, addNode, hk]
      | none =>
        simp only [graphStep, GraphItem.clash, GraphItem.ends, GraphItem.edge?, hu, hk, Option.some_bind,
          Option.map_none', view_addNode h hk, Option.toList_some, Option.toList_none, List.append_nil]
        refine congrArg (fun A' => (.ok (view (N ++ [u]) A' E) : Except TypeError DiGraph)) (funext fun n => ?_)
        by_cases hn : n = u
        · simp [GraphItem.attrsFor, hu, hn]
        · simp [GraphItem.attrsFor, hu, hn, Ne.symm hn, dictUpdate_nil]
  | edge fromNode toNode =>
    cases hf : truthy fromNode <;> cases ht : truthy toNode <;>
      simp [graphStep, GraphItem.clash, GraphItem.ends, GraphItem.edge?, GraphItem.attrsFor, hf, ht,
        dictUpdate_nil, view_addEdge h]
  | other => simp [graphStep, GraphItem.clash, GraphItem.ends, GraphItem.edge?, GraphItem.attrsFor, dictUpdate_nil]

theorem fresh_items (items : List GraphItem) :
    Fresh (items.flatMap GraphItem.ends) (fun n => dictUpdate [] (items.flatMap (GraphItem.attrsFor n)))
      (items.filterMap GraphItem.edge?) where
  attrs n hn := by
    have h : items.flatMap (GraphItem.attrsFor n) = [] := List.flatMap_eq_nil_iff.mpr fun r hr =>
      attrsFor_of_not_mem r fun h => hn (List.mem_flatMap.mpr ⟨r, hr, h⟩)
    show dictUpdate [] _ = []
    rw [h, dictUpdate_nil]
  edges e he := by
    obtain ⟨r, hr, hre⟩ := List.mem_filterMap.mp he
    exact List.mem_flatMap.mpr ⟨r, hr, (edge?_ends hre).1⟩

/-- The whole loop: `result_to_graph` raises the first clash of the stream, or else builds the view
of the stream. -/
theorem resultToGraph_eq (items : List GraphItem) :
    resultToGraph items =
      match items.findSome? GraphItem.clash with
      | some k => .error ⟨k⟩
      | none => .ok (view (items.flatMap GraphItem.ends)
          (fun n => dictUpdate [] (items.flatMap (GraphItem.attrsFor n))) (items.filterMap GraphItem.edge?)) := by
  induction items using List.reverseRecOn with
  | nil => rfl
  | append_singleton items r ih =>
    rw [resultToGraph, List.foldlM_append, ← resultToGraph, ih, List.findSome?_append]
    cases items.findSome? GraphItem.clash with
    | some k => rfl
    | none =>
      simp only [bind, Except.bind, List.foldlM_cons, List.foldlM_nil, List.findSome?_cons, List.findSome?_nil,
        Option.none_or, graphStep_view (fresh_items items)]
      cases hr : r.clash with
      | some k => rfl
      | none =>
        simp only [List.flatMap_append, List.flatMap_singleton, List.filterMap_append, dictUpdate_append,
          List.filterMap_cons, List.filterMap_nil]
        cases r.edge? <;> rfl

-- networkx lists the edges node by node, not in the order they came.
example : (resultToGraph [.node (some "a") [], .node (some "b") [], .edge (some "b") (some "c"),
    .edge (some "a") (some "b")]).map DiGraph.edges = .ok [(("a" : PyStr), ("b" : PyStr)), ("b", "c")] :=
  rfl

-- An edge whose end comes before the end's node item: the node is added bare, then given its
-- attributes in place.
example : (resultToGraph [.edge (some "b") (some "a"), .node (some "a") [(("k" : PyStr), Json.null)]]).map
    DiGraph.node = .ok [(("b" : PyStr), []), ("a", [(("k" : PyStr), Json.null)])] :=
  rfl

-- A built graph is the view of its stream, which has no clash.
theorem resultToGraph_eq_ok {items : List GraphItem} {g : DiGraph} (hg : resultToGraph items = .ok g) :
    items.findSome? GraphItem.clash = none ∧ g = view (items.flatMap GraphItem.ends)
      (fun n => dictUpdate [] (items.flatMap (GraphItem.attrsFor n))) (items.filterMap GraphItem.edge?) := by
  rw [resultToGraph_eq] at hg
  cases hk : items.findSome? GraphItem.clash with
  | some k => rw [hk] at hg; cases hg
  | none => rw [hk] at hg; cases hg; exact ⟨rfl, rfl⟩

-- Every attribute a node of the graph holds was given by a node item with its id.
theorem resultToGraph_attr_mem {items : List GraphItem} {g : DiGraph} (hg : resultToGraph items = .ok g)
    {n : PyStr × List (PyStr × Json)} {kv : PyStr × Json} (hn : n ∈ g.node) (hkv : kv ∈ n.2) :
    ∃ uid rendered, GraphItem.node uid rendered ∈ items ∧ truthy uid = some n.1 ∧ kv ∈ rendered := by
  obtain ⟨-, rfl⟩ := resultToGraph_eq_ok hg
  obtain ⟨m, -, rfl⟩ := List.mem_map.mp hn
  obtain ⟨r, hr, hkr⟩ := List.mem_flatMap.mp ((mem_dictUpdate _ _ hkv).resolve_left (List.not_mem_nil _))
  cases r with
  | node uid rendered =>
    by_cases hu : truthy uid = some m
    · exact ⟨uid, rendered, hr, hu, by simpa [GraphItem.attrsFor, hu] using hkr⟩
    · simp [GraphItem.attrsFor, hu] at hkr
  | edge | other => cases hkr

/-- `respond_graphml` hands `generate_graphml` a graph whose every node attribute is a scalar other
than `None`, taken from the `reported` section of a node item with the node's id. -/
theorem graphmlGraph_flat (items : List StreamItem) {g : DiGraph} (hg : graphmlGraph items = .ok g) :
    ∀ n ∈ g.node, ∀ kv ∈ n.2, kv.2.isNone = false ∧ kv.2.isStructured = false ∧
      ∃ uid reported, StreamItem.node uid reported ∈ items ∧ truthy uid = some n.1 ∧ kv ∈ reported :=
  fun _ hn _ hkv => by
    obtain ⟨uid, rendered, hr, hu, hk⟩ := resultToGraph_attr_mem hg hn hkv
    obtain ⟨r, hr', hr⟩ := List.mem_map.mp hr
    cases r with
    | node _ reported =>
      cases hr
      have ⟨hk, hflat⟩ := List.mem_filter.mp hk
      simp only [Bool.and_eq_true, Bool.not_eq_true'] at hflat
      exact ⟨hflat.1, hflat.2, _, reported, hr', hu, hk⟩
    | edge | other => cases hr

-- A node's list and `None` are dropped; its number is kept.
theorem graphmlGraph_flat_reported :
    graphmlGraph [.node (some "a") [(("x" : PyStr), .arr []), ("y", .null), ("z", .num "1")]] =
        .ok ⟨[(("a" : PyStr), [(("z" : PyStr), .num "1")])], [(("a" : PyStr), [])]⟩ ∧
      (Json.num "1").isNone = false ∧ (Json.num "1").isStructured = false ∧
      ∃ uid reported, StreamItem.node uid reported ∈
          [StreamItem.node (some "a") [(("x" : PyStr), .arr []), ("y", .null), ("z", .num "1")]] ∧
        truthy uid = some "a" ∧ (("z" : PyStr), Json.num "1") ∈ reported :=
  have h : graphmlGraph [.node (some "a") [(("x" : PyStr), .arr []), ("y", .null), ("z", .num "1")]] =
      .ok ⟨[(("a" : PyStr), [(("z" : PyStr), .num "1")])], [(("a" : PyStr), [])]⟩ := rfl
  ⟨h, graphmlGraph_flat _ h (("a" : PyStr), [(("z" : PyStr), .num "1")]) (List.mem_singleton_self _)
    (("z" : PyStr), .num "1") (List.mem_singleton_self _)⟩

end Loop

section Serializers

open DiGraph

variable (f g : List (PyStr × Json) → List (PyStr × Json))

theorem ends_toGraphItem (r : StreamItem) : (r.toGraphItem f).ends = (r.toGraphItem g).ends := by
  cases r <;> rfl

theorem edge?_toGraphItem (r : StreamItem) : (r.toGraphItem f).edge? = (r.toGraphItem g).edge? := by
  cases r <;> rfl

theorem attrsFor_toGraphItem (hf : f [] = []) (n : PyStr) (r : StreamItem) :
    (r.toGraphItem f).attrsFor n = f ((r.toGraphItem id).attrsFor n) := by
  cases r with
  | node uid reported =>
    by_cases h : truthy uid = some n <;> simp [StreamItem.toGraphItem, GraphItem.attrsFor, h, hf]
  | edge | other => exact hf.symm

-- `no_nested_props` keeps no key the full section does not have.
theorem clash_noNestedProps (r : StreamItem) (h : (r.toGraphItem id).clash = none) :
    (r.toGraphItem noNestedProps).clash = none := by
  cases r with
  | node uid reported =>
    cases hu : truthy uid with
    | none => simp [StreamItem.toGraphItem, GraphItem.clash, hu]
    | some u =>
      simp only [StreamItem.toGraphItem, GraphItem.clash, hu, Option.some_bind, id, Option.map_eq_none',
        List.find?_eq_none] at h ⊢
      exact fun kv hkv => h kv (List.mem_filter.mp hkv).1
  | edge | other => rfl

/-- `respond_graphml` writes the graph `respond_cytoscape` serializes, whenever that one is built:
the same nodes in the same order, the same successors, and of each node every attribute that is
a scalar other than `None`. -/
theorem graphmlGraph_cytoscapeGraph (items : List StreamItem) {c : DiGraph} (hc : cytoscapeGraph items = .ok c) :
    ∃ g, graphmlGraph items = .ok g ∧
      List.Forall₂ (fun nc ng => nc.1 = ng.1 ∧ noNestedProps nc.2 ⊆ ng.2) c.node g.node ∧ g.succ = c.succ := by
  obtain ⟨hk, rfl⟩ := resultToGraph_eq_ok hc
  have hk' : (items.map (StreamItem.toGraphItem noNestedProps)).findSome? GraphItem.clash = none := by
    simp only [List.findSome?_eq_none_iff, List.mem_map] at hk ⊢
    rintro _ ⟨r, hr, rfl⟩
    exact clash_noNestedProps r (hk _ ⟨r, hr, rfl⟩)
  have hattrs (n : PyStr) : (items.map (StreamItem.toGraphItem noNestedProps)).flatMap (GraphItem.attrsFor n) =
      noNestedProps ((items.map (StreamItem.toGraphItem id)).flatMap (GraphItem.attrsFor n)) := by
    simp only [List.flatMap_map, Function.comp_def, attrsFor_toGraphItem noNestedProps rfl, noNestedProps,
      List.filter_flatMap]
  have hends := List.flatMap_map (StreamItem.toGraphItem noNestedProps) GraphItem.ends items
  have hedges := List.filterMap_map (StreamItem.toGraphItem noNestedProps) GraphItem.edge? items
  refine ⟨_, by rw [graphmlGraph, resultToGraph_eq, hk'], ?_, ?_⟩
  · simp only [view, List.forall₂_map_left_iff, List.forall₂_map_right_iff, hattrs, List.flatMap_map,
      Function.comp_def, ends_toGraphItem noNestedProps id]
    exact List.forall₂_same.mpr fun _ _ =>
      ⟨rfl, fun kv hkv => mem_dictUpdate_filter (List.mem_filter.mp hkv).1 (List.mem_filter.mp hkv).2⟩
  · simp only [view, List.flatMap_map, List.filterMap_map, Function.comp_def, ends_toGraphItem noNestedProps id,
      edge?_toGraphItem noNestedProps id]

/-- A value a later `None` replaces in the cytoscape graph is still written by `respond_graphml`:
the converse does not hold. -/
theorem graphmlGraph_keeps_replaced_value :
    cytoscapeGraph [.node (some "a") [(("x" : PyStr), .num "1")], .node (some "a") [(("x" : PyStr), .null)]] =
        .ok ⟨[(("a" : PyStr), [(("x" : PyStr), .null)])], [(("a" : PyStr), [])]⟩ ∧
      graphmlGraph [.node (some "a") [(("x" : PyStr), .num "1")], .node (some "a") [(("x" : PyStr), .null)]] =
        .ok ⟨[(("a" : PyStr), [(("x" : PyStr), .num "1")])], [(("a" : PyStr), [])]⟩ ∧
      ∃ g, graphmlGraph [.node (some "a") [(("x" : PyStr), .num "1")], .node (some "a") [(("x" : PyStr), .null)]] =
          .ok g ∧
        List.Forall₂ (fun nc ng => nc.1 = ng.1 ∧ noNestedProps nc.2 ⊆ ng.2)
          [(("a" : PyStr), [(("x" : PyStr), Json.null)])] g.node ∧ g.succ = [(("a" : PyStr), [])] :=
  have hc : cytoscapeGraph [.node (some "a") [(("x" : PyStr), .num "1")], .node (some "a") [(("x" : PyStr), .null)]] =
      .ok ⟨[(("a" : PyStr), [(("x" : PyStr), .null)])], [(("a" : PyStr), [])]⟩ := rfl
  ⟨hc, rfl, graphmlGraph_cytoscapeGraph _ hc⟩

end Serializers

end ContentRenderer
