import Cloudkeeper.Web.ContentRenderer
import Mathlib.Data.List.Dedup

/-! What `respond_dot` writes, without its state: the loop's two `defaultdict`s are read as the
colour table of the kinds seen so far and the accounts seen so far with their node ids, and every
turn of the loop is shown to keep that reading. -/

namespace ContentRenderer

-- The distinct elements of a list, in the order they first occur.
def firstSeen [DecidableEq α] (l : List α) : List α :=
  l.reverse.dedup.reverse

-- `colors`: the kinds in first-seen order take the colours 1, 2, …, 12, 1, 2, ….
def colorTable (kinds : List PyStr) : List (PyStr × Nat) :=
  (firstSeen kinds).enum.map fun p => (p.2, p.1 % 12 + 1)

-- `in_account`: the accounts in first-seen order, each with its node ids in stream order.
def accountGroups (entries : List (PyStr × PyStr)) : List (PyStr × List PyStr) :=
  (firstSeen (entries.map Prod.fst)).map fun a => (a, (entries.filter fun e => e.1 = a).map Prod.snd)

-- The kind of the node a record is written as, if it is.
def Record.kind? : Record → Option PyStr
  | .node uid _ kind _ => (truthy uid).map fun _ => kind.getD "n/a"
  | _ => none

-- The account and id a record is filed under in `in_account`, if it is written as a node.
def Record.entry : Record → Option (PyStr × PyStr)
  | .node uid _ _ account => (truthy uid).map fun uid => (account.getD "graph_root", uid)
  | _ => none

-- The lines a record is written as, given the colour table.
def recordLines (colors : List (PyStr × Nat)) : Record → List PyStr
  | .node uid name kind _ =>
    match truthy uid with
    | some uid =>
      [nodeLine uid (sanitize (name.getD "n/a")) (kind.getD "n/a") ((colors.lookup (kind.getD "n/a")).getD 0)]
    | none => []
  | .edge fromNode toNode =>
    match truthy fromNode, truthy toNode with
    | some fromNode, some toNode => [edgeLine fromNode toNode]
    | _, _ => []
  | .other => []

/-- The state after the node records of kinds `K` filed as `E`. -/
structure DotState.Tracks (st : DotState) (K : List PyStr) (E : List (PyStr × PyStr)) : Prop where
  colors : st.colors = colorTable K
  counter : st.counter = (firstSeen K).length
  inAccount : st.inAccount = accountGroups E

section FirstSeen

variable [DecidableEq α] {a : α} {l : List α}

theorem mem_firstSeen : a ∈ firstSeen l ↔ a ∈ l := by
  simp [firstSeen, List.mem_dedup]

theorem nodup_firstSeen (l : List α) : (firstSeen l).Nodup :=
  List.nodup_reverse.mpr (List.nodup_dedup _)

theorem firstSeen_append_of_mem (h : a ∈ l) : firstSeen (l ++ [a]) = firstSeen l := by
  simp [firstSeen, List.dedup_cons_of_mem (List.mem_reverse.mpr h)]

theorem firstSeen_append_of_not_mem (h : a ∉ l) : firstSeen (l ++ [a]) = firstSeen l ++ [a] := by
  simp [firstSeen, List.dedup_cons_of_not_mem (mt List.mem_reverse.mp h)]

theorem firstSeen_append_prefix : ∀ m : List α, ∃ t, firstSeen (l ++ m) = firstSeen l ++ t := by
  intro m
  induction m using List.reverseRecOn with
  | nil => exact ⟨[], by simp⟩
  | append_singleton m a ih =>
    obtain ⟨t, ht⟩ := ih
    by_cases ha : a ∈ l ++ m
    · exact ⟨t, by rw [← List.append_assoc, firstSeen_append_of_mem ha, ht]⟩
    · exact ⟨t ++ [a], by rw [← List.append_assoc, firstSeen_append_of_not_mem ha, ht, List.append_assoc]⟩

end FirstSeen

section Colors

variable {k : PyStr} {K : List PyStr}

theorem colorTable_keys (K : List PyStr) : (colorTable K).map Prod.fst = firstSeen K := by
  simp [colorTable, List.map_map, Function.comp_def, List.enum_map_snd]

theorem lookup_colorTable_isSome (h : k ∈ K) : ((colorTable K).lookup k).isSome := by
  rw [List.lookup_isSome_iff]
  obtain ⟨p, hp, hpk⟩ := List.mem_map.mp ((colorTable_keys K).symm ▸ mem_firstSeen.mpr h)
  exact ⟨p, hp, by simp [hpk]⟩

theorem lookup_colorTable_eq_none (h : k ∉ K) : (colorTable K).lookup k = none := by
  rw [List.lookup_eq_none_iff]
  intro p hp
  have : p.1 ∈ firstSeen K := colorTable_keys K ▸ List.mem_map_of_mem Prod.fst hp
  simp only [bne_iff_ne, ne_eq]
  rintro rfl
  exact h (mem_firstSeen.mp this)

theorem colorTable_append_of_not_mem (h : k ∉ K) :
    colorTable (K ++ [k]) = colorTable K ++ [(k, (firstSeen K).length % 12 + 1)] := by
  simp [colorTable, firstSeen_append_of_not_mem h, List.enum_append]

-- The colour of a kind already seen is fixed for the rest of the stream.
theorem lookup_colorTable_append (h : k ∈ K) (L : List PyStr) :
    (colorTable (K ++ L)).lookup k = (colorTable K).lookup k := by
  obtain ⟨t, ht⟩ := firstSeen_append_prefix (l := K) L
  obtain ⟨c, hc⟩ := Option.isSome_iff_exists.mp (lookup_colorTable_isSome h)
  simp only [colorTable, ht, List.enum_append, List.map_append, List.lookup_append] at hc ⊢
  rw [hc]
  rfl

theorem DotState.color_tracks {st : DotState} (hc : st.colors = colorTable K)
    (hn : st.counter = (firstSeen K).length) (k : PyStr) :
    st.color k = (((colorTable (K ++ [k])).lookup k).getD 0,
      { st with colors := colorTable (K ++ [k]), counter := (firstSeen (K ++ [k])).length }) := by
  obtain ⟨colors, counter, inAccount⟩ := st
  dsimp only at hc hn
  subst hc hn
  by_cases hk : k ∈ K
  · obtain ⟨c, hkc⟩ := Option.isSome_iff_exists.mp (lookup_colorTable_isSome hk)
    have h : colorTable (K ++ [k]) = colorTable K := by
      rw [colorTable, firstSeen_append_of_mem hk, ← colorTable]
    simp [DotState.color, hkc, h, firstSeen_append_of_mem hk]
  · simp [DotState.color, lookup_colorTable_eq_none hk, colorTable_append_of_not_mem hk,
      firstSeen_append_of_not_mem hk, List.lookup_append]

end Colors

section Accounts

variable {a u : PyStr}

-- `appendIn` on bindings listed by distinct keys: the key's list grows by `u`, or the key is added.
theorem appendIn_map (g : PyStr → List PyStr) :
    ∀ ks : List PyStr, ks.Nodup → (a ∉ ks → g a = []) →
      appendIn (ks.map fun b => (b, g b)) a u =
        (if a ∈ ks then ks else ks ++ [a]).map fun b => (b, g b ++ if b = a then [u] else [])
  | [], _, hg => by simp [appendIn, hg]
  | b :: ks, hnd, hg => by
    obtain ⟨hb, hks⟩ := List.nodup_cons.mp hnd
    by_cases hba : b = a
    · subst hba
      have hrest : ∀ c ∈ ks, (c, g c ++ if c = b then [u] else []) = (c, g c) := fun c hc => by
        simp [show c ≠ b from fun e => hb (e ▸ hc)]
      simp [appendIn, List.map_congr_left hrest]
    · have hmem : a ∈ b :: ks ↔ a ∈ ks := by simp [Ne.symm hba]
      rw [List.map_cons, appendIn, if_neg hba,
        appendIn_map g ks hks fun h => hg (fun h' => h (hmem.mp h')), if_congr hmem rfl rfl]
      split <;> simp [hba]

theorem accountGroups_append (E : List (PyStr × PyStr)) :
    accountGroups (E ++ [(a, u)]) =
      (if a ∈ firstSeen (E.map Prod.fst) then firstSeen (E.map Prod.fst) else firstSeen (E.map Prod.fst) ++ [a]).map
        fun b => (b, (E.filter fun e => e.1 = b).map Prod.snd ++ if b = a then [u] else []) := by
  have hlast (b : PyStr) : ([(a, u)].filter fun e => e.1 = b).map Prod.snd = if b = a then [u] else [] := by
    by_cases h : b = a <;> simp [h, Ne.symm]
  rw [accountGroups, List.map_append, List.map_singleton]
  split
  · rename_i h
    rw [firstSeen_append_of_mem (mem_firstSeen.mp h)]
    simp only [List.filter_append, List.map_append, hlast]
  · rename_i h
    rw [firstSeen_append_of_not_mem (mt mem_firstSeen.mpr h)]
    simp only [List.filter_append, List.map_append, hlast]

/-- `in_account[account].append(uid)` files one more node under its account. -/
theorem appendIn_accountGroups (E : List (PyStr × PyStr)) :
    appendIn (accountGroups E) a u = accountGroups (E ++ [(a, u)]) := by
  rw [accountGroups, appendIn_map _ _ (nodup_firstSeen _), accountGroups_append]
  intro ha
  simp only [List.map_eq_nil_iff, List.filter_eq_nil_iff, decide_eq_true_eq]
  exact fun e he hea => ha (mem_firstSeen.mpr (hea ▸ List.mem_map_of_mem Prod.fst he))

end Accounts

section Loop

variable {st : DotState} {K : List PyStr} {E : List (PyStr × PyStr)}

theorem DotState.Tracks.init : DotState.init.Tracks [] [] :=
  ⟨rfl, rfl, rfl⟩

theorem filterMap_cons_toList {f : Record → Option β} (r : Record) (rs : List Record) :
    (r :: rs).filterMap f = (f r).toList ++ rs.filterMap f := by
  cases h : f r <;> simp [List.filterMap_cons, h]

theorem dotLoop_cons (st : DotState) (r : Record) (rs : List Record) :
    dotLoop st (r :: rs) =
      ((dotStep st r).1 ++ (dotLoop (dotStep st r).2 rs).1, (dotLoop (dotStep st r).2 rs).2) :=
  rfl

-- One turn of the loop writes the record's lines and files it, in both dictionaries.
theorem dotStep_tracks (h : st.Tracks K E) (r : Record) :
    (dotStep st r).1 = recordLines (colorTable (K ++ r.kind?.toList)) r ∧
      (dotStep st r).2.Tracks (K ++ r.kind?.toList) (E ++ r.entry.toList) := by
  match r with
  | .node uid name kind account =>
    cases hu : truthy uid with
    | none => simpa [dotStep, recordLines, Record.kind?, Record.entry, hu] using h
    | some uid =>
      have hcol := DotState.color_tracks h.colors h.counter (kind.getD "n/a")
      simp only [dotStep, recordLines, Record.kind?, Record.entry, hu, hcol, Option.map_some',
        Option.toList_some, true_and]
      exact ⟨rfl, rfl, by rw [h.inAccount, appendIn_accountGroups]⟩
  | .edge fromNode toNode =>
    cases hf : truthy fromNode <;> cases ht : truthy toNode <;>
      exact ⟨by simp [dotStep, recordLines, hf, ht],
        by simpa [dotStep, Record.kind?, Record.entry, hf, ht] using h⟩
  | .other => exact ⟨rfl, by simpa [dotStep, Record.kind?, Record.entry] using h⟩

-- A record's lines read only the colour of its own kind, which later records leave as it is.
theorem recordLines_append (r : Record) (hK : ∀ k ∈ r.kind?, k ∈ K) (L : List PyStr) :
    recordLines (colorTable (K ++ L)) r = recordLines (colorTable K) r := by
  match r with
  | .node uid name kind account =>
    cases hu : truthy uid with
    | none => simp [recordLines, hu]
    | some uid =>
      have hk := hK (kind.getD "n/a") (by simp [Record.kind?, hu])
      simp [recordLines, hu, lookup_colorTable_append hk]
  | .edge _ _ | .other => rfl

/-- Over a whole stream the loop writes each record's lines with its kind's colour, and its two
dictionaries are the colour table of all kinds seen and the accounts of all nodes seen. -/
theorem dotLoop_tracks : ∀ (items : List Record) {st : DotState} {K : List PyStr}
    {E : List (PyStr × PyStr)}, st.Tracks K E →
    (dotLoop st items).1 = items.flatMap (recordLines (colorTable (K ++ items.filterMap Record.kind?))) ∧
      (dotLoop st items).2.Tracks (K ++ items.filterMap Record.kind?) (E ++ items.filterMap Record.entry)
  | [], _, _, _, h => by simpa [dotLoop] using h
  | r :: rs, st, K, E, h => by
    obtain ⟨hout, hst⟩ := dotStep_tracks h r
    obtain ⟨hout', hst'⟩ := dotLoop_tracks rs hst
    rw [filterMap_cons_toList r rs, filterMap_cons_toList r rs, ← List.append_assoc, ← List.append_assoc]
    refine ⟨?_, hst'⟩
    rw [dotLoop_cons, hout, hout', List.flatMap_cons, @recordLines_append (K ++ r.kind?.toList) r
      (fun _ hk => List.mem_append_right _ (Option.mem_toList.mpr hk)) (rs.filterMap Record.kind?)]

/-- `respond_dot` without its state: the header, each record's lines with its kind's colour, then
one subgraph per account in first-seen order, listing that account's node ids in stream order. -/
theorem respondDot_eq (items : List Record) :
    respondDot items =
      dotHeader :: items.flatMap (recordLines (colorTable (items.filterMap Record.kind?))) ++
        ((accountGroups (items.filterMap Record.entry)).map fun (account, uids) =>
          subgraphLines account uids).flatten ++ [("\x7d" : PyStr)] := by
  obtain ⟨hlines, hst⟩ := dotLoop_tracks items DotState.Tracks.init
  simp only [List.nil_append] at hlines hst
  simp only [respondDot, hlines, hst.inAccount]

end Loop

end ContentRenderer
