import Cloudkeeper.Web.ContentRenderer

namespace ContentRenderer

variable {sep render : Json → PyStr}

theorem separatedLoop_true :
    ∀ items, (separatedLoop sep render true items).flatten =
      items.flatMap fun item => sep item ++ render item
  | [] => rfl
  | item :: rest => by simp [separatedLoop, separatedLoop_true rest]

theorem intercalate_cons (t x : PyStr) : ∀ xs : List PyStr, t.intercalate (x :: xs) = x ++ xs.flatMap (t ++ ·)
  | [] => by simp [List.intercalate]
  | y :: ys => by
    have ih := intercalate_cons t y ys
    simp only [List.intercalate, List.intersperse_cons₂, List.flatten_cons] at ih ⊢
    simp [ih]

-- With one separator for every item, the loop's flag only keeps it from the front.
theorem separatedLoop_const (t : PyStr) (items : List Json) :
    (separatedLoop (fun _ => t) render false items).flatten = t.intercalate (items.map render) := by
  cases items with
  | nil => rfl
  | cons item rest =>
    simp [separatedLoop, separatedLoop_true, intercalate_cons, List.flatMap_map, Function.comp_def]

/-- `respond_json` streams one JSON array, the items' `json.dumps` between `[` and `]` separated by
a comma and a line break, and `respond_yaml` the items' YAML documents separated by `---`. -/
theorem respondJson_respondYaml_documents (dumps dump : Json → PyStr) (items : List Json) :
    (respondJson dumps items).flatten = "[\n" ++ (",\n" : PyStr).intercalate (items.map dumps) ++ "\n]" ∧
      (respondYaml dump items).flatten = ("---\n" : PyStr).intercalate (items.map dump) :=
  ⟨by simp [respondJson, separatedLoop_const], separatedLoop_const _ items⟩

-- A scalar leaves no line break, so the `---` before a structured item after it lands mid-line.
theorem respondText_scalar_then_structured (dump : Json → PyStr) :
    (respondText dump [.num "1", .obj [("a", .num "1")]] false).flatten =
      ("1---\n" : PyStr) ++ dump (.obj [("a", .num "1")]) := by
  simp [respondText, separatedLoop, textSep, textRender, Json.isStructured, Json.pyStr]
  rfl

end ContentRenderer
