/-! Cutting a text at separators. -/
namespace Coap.Text

/-- The text before the first separator and the text after it. -/
def cut (sep : Char) (s : List Char) : Option (List Char × List Char) :=
  match s.dropWhile (· != sep) with
  | [] => none
  | _ :: rest => some (s.takeWhile (· != sep), rest)

/-- The text before the last separator and the text after it. -/
def cutLast (sep : Char) (s : List Char) : Option (List Char × List Char) :=
  (cut sep s.reverse).map fun (back, front) => (front.reverse, back.reverse)

/-- The non-empty stretches between separators. -/
def parts (sep : Char) (s : List Char) : List (List Char) :=
  (s.splitOn sep).filter (!·.isEmpty)

theorem cut_append {sep : Char} {s rest : List Char} (h : sep ∉ s) :
    cut sep (s ++ sep :: rest) = some (s, rest) := by
  have hall : ∀ c ∈ s, (c != sep) = true := fun c hc => by
    simpa using fun e : c = sep => h (e ▸ hc)
  simp [cut, List.dropWhile_append_of_pos hall, List.takeWhile_append_of_pos hall]

end Coap.Text
