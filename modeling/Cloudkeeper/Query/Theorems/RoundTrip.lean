import Cloudkeeper.Query.Theorems.Parts

/-! The query parser read against the sentences of the query language: every sentence whose parts
are kept apart is read back as the query it denotes, and one whose parts run together is not. -/

namespace QueryParser

open Parser QueryModel Sentence

-- The query's edge type fills in exactly the arrows that name none.
theorem backfill_written (et : PyStr) (p : PartText) : backfill et p.written = p.denote et := by
  obtain ⟨term, _ | ⟨_ | w, range, dir⟩, pinned⟩ := p
  · rfl
  · rfl
  · simp [backfill, PartText.written, PartText.denote, Arrow.written, Arrow.denote, Word.text]

theorem preambleP_text (E : EdgeType) (s : Sentence) :
    ∃ d, preambleP.optional s.text = .success d (partsText s.parts) ∧
      (dictGet (d.getD []) "edge_type").getD E.default = s.edgeType E := by
  obtain ⟨_ | w, parts, hne⟩ := s
  · exact ⟨none, preambleP_part parts hne, rfl⟩
  · refine ⟨_, preambleP_word w _ fun c hc => (partsText_head parts hne c hc).1, ?_⟩
    simp [dictGet, Sentence.edgeType]

/-- A sentence is read back as the query it denotes when its edge type is allowed and no part with
neither navigation nor pin is followed by one that begins with `and` or `or`. -/
theorem parseQuery_text [Unicode] (E : EdgeType) (s : Sentence) (hsep : s.parts.Chain' Separated)
    (het : s.edgeType E ∈ E.allowedEdgeTypes) : parseQuery E s.text = .success (s.denote E) [] := by
  obtain ⟨d, hpre, hd⟩ := preambleP_text E s
  have hmany : partParser.many (partsText s.parts) = .success (s.parts.map PartText.written) [] :=
    manyLoop_parts s.parts _ hsep (Nat.lt_succ_of_le (partsText_length s.parts))
  have hparts : (s.parts.map PartText.written).map (backfill (s.edgeType E)) =
      s.parts.map (PartText.denote (s.edgeType E)) := by
    simp only [List.map_map, Function.comp_def, backfill_written]
  simp only [parseQuery, queryParser, seqLeft_apply, bind_apply, hpre, hmany, hd, het,
    Outcome.bind_success, not_true_eq_false, ite_false, pure_apply, hparts]
  rfl

theorem parseQuery_text_arrow :
    let s : Sentence := ⟨some ⟨100, [101, 102, 97, 117, 108, 116], by decide, by decide⟩,
      [⟨.mk (.predicate ⟨97, [], by decide, by decide⟩ ⟨"==", by decide⟩ (.int ⟨[1], by decide, by decide⟩))
          .nil, some ⟨none, none, .outbound⟩, false⟩,
        ⟨.mk (.predicate ⟨111, [114, 100, 101, 114], by decide, by decide⟩ ⟨"==", by decide⟩
          (.float ⟨[2], [5], by decide⟩)) .nil, none, false⟩], List.cons_ne_nil _ _⟩
    s.text = "edge_type=default: a == 1 --> order == 2.5" ∧ s.parts.Chain' Separated ∧
      s.edgeType EdgeType.defaultOnly ∈ EdgeType.defaultOnly.allowedEdgeTypes ∧
      @parseQuery Unicode.latin1 EdgeType.defaultOnly s.text = .success (s.denote EdgeType.defaultOnly) [] := by
  intro s
  have hsep : s.parts.Chain' Separated := List.chain'_pair.mpr fun h => nomatch h
  have het : s.edgeType EdgeType.defaultOnly ∈ EdgeType.defaultOnly.allowedEdgeTypes := by decide
  exact ⟨by decide, hsep, het, @parseQuery_text Unicode.latin1 _ s hsep het⟩

-- `boolOpP` has no word boundary: a part whose name begins with `or` continues the term before.
theorem parseQuery_boolOp_prefix :
    @parseQuery Unicode.latin1 EdgeType.defaultOnly "a == 1 order == 2" =
      .success ⟨[⟨.combined (.predicate "a" "==" (.int 1)) "or" (.predicate "der" "==" (.int 2)),
        false, none⟩]⟩ [] := by
  rfl

end QueryParser
