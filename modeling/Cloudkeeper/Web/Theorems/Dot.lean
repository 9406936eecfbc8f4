import Cloudkeeper.Web.Theorems.DotLoop

namespace ContentRenderer

/-- The quoted strings of a DOT text in order, as DOT's lexer reads them: `"` opens and closes
one, and inside one `\"` stands for `"`. The state is the quoted string being read, if any;
`none` is returned when the text ends inside a quoted string. -/
def dotQuoted : Option PyStr → PyStr → Option (List PyStr)
  | none, [] => some []
  | none, 34 :: s => dotQuoted (some []) s
  | none, _ :: s => dotQuoted none s
  | some _, [] => none
  | some acc, 92 :: 34 :: s => dotQuoted (some (acc ++ [34])) s
  | some acc, 34 :: s => (acc :: ·) <$> dotQuoted none s
  | some acc, c :: s => dotQuoted (some (acc ++ [c])) s

-- The uid's quote closes the node's quoted id, and what follows is read out of place.
theorem respondDot_quote_in_uid :
    dotQuoted none (respondDot [.node (some "a\"b") none none none]).flatten =
      some (["a", " [label=", ", style=filled fillcolor=1];\n subgraph ", " \x7b\n    ", "b"].map
        PyStr.ofString) := by
  rfl

-- A value `respond_dot` can put between quotes unchanged: no `"` and no `\\`.
def Quotable (s : PyStr) : Prop :=
  ∀ c ∈ s, c ≠ 34 ∧ c ≠ 92

instance (s : PyStr) : Decidable (Quotable s) :=
  inferInstanceAs (Decidable (∀ c ∈ s, c ≠ 34 ∧ c ≠ 92))

-- Every value of a record that `respond_dot` quotes is clean.
def Record.Clean : Record → Prop
  | .node uid _ kind account =>
    (∀ s ∈ uid, Quotable s) ∧ (∀ s ∈ kind, Quotable s) ∧ (∀ s ∈ account, Quotable s)
  | .edge fromNode toNode => (∀ s ∈ fromNode, Quotable s) ∧ (∀ s ∈ toNode, Quotable s)
  | .other => True

-- The quoted strings of a record's lines: a node's id and label, an edge's two ends.
def Record.quoted : Record → List PyStr
  | .node uid name kind _ =>
    match truthy uid with
    | some uid => [uid, sanitize (name.getD "n/a") ++ "|" ++ kind.getD "n/a"]
    | none => []
  | .edge fromNode toNode =>
    match truthy fromNode, truthy toNode with
    | some fromNode, some toNode => [fromNode, toNode]
    | _, _ => []
  | .other => []

-- `text` reads as the quoted strings `ts` and ends outside a quoted string.
def ReadsQuoted (text : PyStr) (ts : List PyStr) : Prop :=
  ∀ rest, dotQuoted none (text ++ rest) = (ts ++ ·) <$> dotQuoted none rest

namespace ReadsQuoted

theorem plain : ∀ p : PyStr, (∀ c ∈ p, c ≠ 34) → ReadsQuoted p []
  | [], _ => fun rest => by simp
  | c :: p, h => fun rest => by
    rw [List.cons_append, dotQuoted.eq_3 _ _ (h c (List.mem_cons_self _ _))]
    exact plain p (fun c hc => h c (List.mem_cons_of_mem _ hc)) rest

theorem inside : ∀ (q acc rest : PyStr), Quotable q →
    dotQuoted (some acc) (q ++ 34 :: rest) = ((acc ++ q) :: ·) <$> dotQuoted none rest
  | [], acc, rest, _ => by rw [List.nil_append, dotQuoted.eq_6, List.append_nil]
  | c :: q, acc, rest, h => by
    have hc := h c (List.mem_cons_self _ _)
    rw [List.cons_append, dotQuoted.eq_7 _ _ _ (fun _ h _ => hc.2 h) hc.1,
      inside q (acc ++ [c]) rest fun c hc' => h c (List.mem_cons_of_mem _ hc')]
    simp

theorem quoted (q : PyStr) (hq : Quotable q) : ReadsQuoted (34 :: q ++ [34]) [q] := fun rest => by
  simp only [List.cons_append, List.append_assoc, List.singleton_append, List.nil_append]
  rw [dotQuoted.eq_2, inside q [] rest hq]
  rfl

theorem append {A B : PyStr} {ts us : List PyStr} (hA : ReadsQuoted A ts) (hB : ReadsQuoted B us) :
    ReadsQuoted (A ++ B) (ts ++ us) := fun rest => by
  rw [List.append_assoc, hA, hB]
  simp [Option.map_map, Function.comp_def]

theorem flatten_map {g : α → PyStr} {f : α → List PyStr} :
    ∀ xs : List α, (∀ x ∈ xs, ReadsQuoted (g x) (f x)) → ReadsQuoted (xs.map g).flatten (xs.flatMap f)
  | [], _ => plain [] (fun _ h => nomatch h)
  | x :: xs, h => by
    rw [List.map_cons, List.flatten_cons, List.flatMap_cons]
    exact (h x (List.mem_cons_self _ _)).append (flatten_map xs fun y hy => h y (List.mem_cons_of_mem _ hy))

theorem flatMap_lines {g : α → List PyStr} {f : α → List PyStr} (xs : List α)
    (h : ∀ x ∈ xs, ReadsQuoted (g x).flatten (f x)) : ReadsQuoted (xs.flatMap g).flatten (xs.flatMap f) := by
  rw [List.flatMap_def, List.flatten_flatten, List.map_map]
  exact flatten_map xs h

theorem dotQuoted_eq {A : PyStr} {ts : List PyStr} (h : ReadsQuoted A ts) : dotQuoted none A = some ts := by
  simpa [dotQuoted] using h []

end ReadsQuoted

section Lines

variable {a b : PyStr}

theorem Quotable.append (ha : Quotable a) (hb : Quotable b) : Quotable (a ++ b) := fun c hc =>
  (List.mem_append.mp hc).elim (ha c) (hb c)

theorem sanitize_quotable (s : PyStr) : Quotable (sanitize s) := fun c hc => by
  have h := (List.mem_filter.mp hc).2
  simp only [isAsciiAlnum, isAsciiLetter, Bool.or_eq_true, Bool.and_eq_true, decide_eq_true_eq] at h
  omega

theorem quotable_getD {o : Option PyStr} {d : PyStr} (ho : ∀ s ∈ o, Quotable s) (hd : Quotable d) :
    Quotable (o.getD d) := by
  cases o with
  | none => exact hd
  | some s => exact ho s rfl

theorem quotable_truthy {o : Option PyStr} {s : PyStr} (ho : ∀ s ∈ o, Quotable s) (h : truthy o = some s) :
    Quotable s := by
  match o, h with
  | some (_ :: _), h => cases h; exact ho _ rfl

theorem color_digits : ∀ n ≤ 12, ∀ c ∈ PyStr.ofString (toString n), c ≠ 34 := by
  decide

theorem lookup_colorTable_le (K : List PyStr) (k : PyStr) : ((colorTable K).lookup k).getD 0 ≤ 12 := by
  cases h : (colorTable K).lookup k with
  | none => exact Nat.zero_le _
  | some c =>
    obtain ⟨l₁, l₂, hl, -⟩ := List.lookup_eq_some_iff.mp h
    have hmem : (k, c) ∈ colorTable K := hl ▸ List.mem_append_right _ (List.mem_cons_self _ _)
    obtain ⟨p, -, hp⟩ := List.mem_map.mp hmem
    simp only [Prod.mk.injEq] at hp
    simp only [Option.getD_some, ← hp.2]
    omega

open ReadsQuoted in
theorem nodeLine_reads (uid label kind : PyStr) (n : Nat) (hn : n ≤ 12) (hu : Quotable uid)
    (hl : Quotable (label ++ "|" ++ kind)) :
    ReadsQuoted (nodeLine uid label kind n) [uid, label ++ "|" ++ kind] := by
  have h : nodeLine uid label kind n = (" " : PyStr) ++ ((34 :: uid ++ [34]) ++ ((" [label=" : PyStr) ++
      ((34 :: (label ++ ("|" : PyStr) ++ kind) ++ [34]) ++ ((", style=filled fillcolor=" : PyStr) ++
        (PyStr.ofString (toString n) ++ ("];\n" : PyStr)))))) := by
    simp only [nodeLine, List.append_assoc, List.cons_append]
    rfl
  rw [h]
  simpa using (plain _ (by decide)).append ((quoted _ hu).append ((plain _ (by decide)).append
    ((quoted _ hl).append ((plain _ (by decide)).append ((plain _ (color_digits n hn)).append
      (plain _ (by decide)))))))

open ReadsQuoted in
theorem edgeLine_reads (fromNode toNode : PyStr) (hf : Quotable fromNode) (ht : Quotable toNode) :
    ReadsQuoted (edgeLine fromNode toNode) [fromNode, toNode] := by
  have h : edgeLine fromNode toNode = (" " : PyStr) ++ ((34 :: fromNode ++ [34]) ++ ((" -> " : PyStr) ++
      ((34 :: toNode ++ [34]) ++ ("\n" : PyStr)))) := by
    simp only [edgeLine, List.append_assoc, List.cons_append]
    rfl
  rw [h]
  simpa using (plain _ (by decide)).append ((quoted _ hf).append ((plain _ (by decide)).append
    ((quoted _ ht).append (plain _ (by decide)))))

open ReadsQuoted in
theorem subgraphLines_reads (account : PyStr) (uids : List PyStr) (ha : Quotable account)
    (hu : ∀ u ∈ uids, Quotable u) : ReadsQuoted (subgraphLines account uids).flatten (account :: uids) := by
  have hline : ∀ u ∈ uids, ReadsQuoted ((fun u => ("    \"" : PyStr) ++ u ++ ("\"\n" : PyStr)) u) [u] :=
    fun u hu' => by
      show ReadsQuoted (("    \"" : PyStr) ++ u ++ ("\"\n" : PyStr)) [u]
      have h : ("    \"" : PyStr) ++ u ++ ("\"\n" : PyStr) =
          ("    " : PyStr) ++ ((34 :: u ++ [34]) ++ ("\n" : PyStr)) := by
        simp only [List.append_assoc, List.cons_append]
        rfl
      rw [h]
      simpa using (plain _ (by decide)).append ((quoted _ (hu u hu')).append (plain _ (by decide)))
  have hopen : (" subgraph \"" : PyStr) ++ account ++ ("\" \x7b\n" : PyStr) =
      (" subgraph " : PyStr) ++ ((34 :: account ++ [34]) ++ (" \x7b\n" : PyStr)) := by
    simp only [List.append_assoc, List.cons_append]
    rfl
  have := ((plain (" subgraph " : PyStr) (by decide)).append ((quoted _ ha).append
    (plain (" \x7b\n" : PyStr) (by decide)))).append
    ((flatten_map uids hline).append (plain (" \x7d\n" : PyStr) (by decide)))
  rw [← hopen] at this
  simpa [subgraphLines] using this

end Lines

section Output

theorem recordLines_reads {colors : List (PyStr × Nat)} (hc : ∀ k, (colors.lookup k).getD 0 ≤ 12) :
    ∀ r : Record, r.Clean → ReadsQuoted (recordLines colors r).flatten r.quoted
  | .node uid name kind _, ⟨hu, hk, _⟩ => by
    cases h : truthy uid with
    | none => simpa [recordLines, Record.quoted, h] using ReadsQuoted.plain [] (fun _ h => nomatch h)
    | some u =>
      have hl := ((sanitize_quotable (name.getD "n/a")).append (by decide : Quotable ("|" : PyStr))).append
        (quotable_getD hk (by decide : Quotable ("n/a" : PyStr)))
      simpa [recordLines, Record.quoted, h] using
        nodeLine_reads u _ _ _ (hc _) (quotable_truthy hu h) hl
  | .edge fromNode toNode, ⟨hf, ht⟩ => by
    cases h : truthy fromNode <;> cases h' : truthy toNode <;>
      simp only [recordLines, Record.quoted, h, h', List.flatten_nil, List.flatten_cons, List.append_nil]
    all_goals first
      | exact ReadsQuoted.plain [] (fun _ h => nomatch h)
      | exact edgeLine_reads _ _ (quotable_truthy hf h) (quotable_truthy ht h')
  | .other, _ => ReadsQuoted.plain [] (fun _ h => nomatch h)

theorem entry_quotable : ∀ {r : Record}, r.Clean → ∀ e ∈ r.entry, Quotable e.1 ∧ Quotable e.2
  | .node uid _ _ account, ⟨hu, _, ha⟩, e, he => by
    cases h : truthy uid with
    | none => simp [Record.entry, h] at he
    | some u =>
      simp only [Record.entry, h, Option.map_some', Option.mem_def, Option.some.injEq] at he
      subst he
      exact ⟨quotable_getD ha (by decide), quotable_truthy hu h⟩

theorem accountGroups_quotable {E : List (PyStr × PyStr)} (hE : ∀ e ∈ E, Quotable e.1 ∧ Quotable e.2) :
    ∀ g ∈ accountGroups E, Quotable g.1 ∧ ∀ u ∈ g.2, Quotable u := by
  intro g hg
  obtain ⟨a, ha, rfl⟩ := List.mem_map.mp hg
  obtain ⟨e, he, rfl⟩ := List.mem_map.mp (mem_firstSeen.mp ha)
  refine ⟨(hE e he).1, fun u hu => ?_⟩
  obtain ⟨e', he', rfl⟩ := List.mem_map.mp hu
  exact (hE e' (List.mem_filter.mp he').1).2

theorem subgraphs_reads {E : List (PyStr × PyStr)} (hE : ∀ e ∈ E, Quotable e.1 ∧ Quotable e.2) :
    ReadsQuoted ((accountGroups E).flatMap fun g => subgraphLines g.1 g.2).flatten
      ((accountGroups E).flatMap fun g => g.1 :: g.2) :=
  ReadsQuoted.flatMap_lines _ fun g hg =>
    subgraphLines_reads g.1 g.2 (accountGroups_quotable hE g hg).1 (accountGroups_quotable hE g hg).2

theorem respondDot_quoted (items : List Record) (hclean : ∀ r ∈ items, r.Clean) :
    dotQuoted none (respondDot items).flatten =
      some (items.flatMap Record.quoted ++
        (accountGroups (items.filterMap Record.entry)).flatMap fun (account, uids) => account :: uids) := by
  obtain ⟨hlines, hst⟩ := dotLoop_tracks items DotState.Tracks.init
  simp only [List.nil_append] at hlines hst
  have hE : ∀ e ∈ items.filterMap Record.entry, Quotable e.1 ∧ Quotable e.2 := fun e he => by
    obtain ⟨r, hr, hre⟩ := List.mem_filterMap.mp he
    exact entry_quotable (hclean r hr) e hre
  have hgroups := subgraphs_reads hE
  have hrecords := ReadsQuoted.flatMap_lines items fun r hr =>
    recordLines_reads (lookup_colorTable_le (items.filterMap Record.kind?)) r (hclean r hr)
  have hout := (ReadsQuoted.plain dotHeader (by decide)).append (hrecords.append
    (hgroups.append (ReadsQuoted.plain ("\x7d" : PyStr) (by decide))))
  simp only [respondDot, hlines, hst.inAccount, List.flatten_cons, List.flatten_append]
  simpa [List.flatMap_def] using hout.dotQuoted_eq

theorem respondDot_quoted_node_edge :
    (∀ r ∈ [Record.node (some "a") (some "web-1") (some "vm") none, .edge (some "a") (some "b")], r.Clean) ∧
      dotQuoted none (respondDot [.node (some "a") (some "web-1") (some "vm") none, .edge (some "a") (some "b")]).flatten =
        some (["a", "web1|vm", "a", "b", "graph_root", "a"].map PyStr.ofString) := by
  have hclean : ∀ r ∈ [Record.node (some "a") (some "web-1") (some "vm") none, .edge (some "a") (some "b")],
      r.Clean := by
    simp only [List.mem_cons, List.not_mem_nil, or_false, forall_eq_or_imp, forall_eq, Record.Clean,
      Option.mem_def, Option.some.injEq, forall_eq', reduceCtorEq, false_implies, implies_true, and_true]
    decide
  exact ⟨hclean, (respondDot_quoted _ hclean).trans (by decide)⟩

end Output

end ContentRenderer
