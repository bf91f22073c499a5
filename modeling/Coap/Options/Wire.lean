import Coap.Options.Basic

/-! Options as octets: each is written relative to the number of the one before it, the first
relative to zero, and the payload marker or the end of input ends them. -/
namespace Coap.Options

/-- The octets of entries that follow an option of number `previous`. No value is laid out before
every entry has its head. -/
def writeAfter (previous : OptionNumber) (es : List Entry) : Except WriteError Bytes :=
  (((previous :: es.map Entry.number).zip es).mapM fun p => Entry.writeHead p.1 p.2).map fun heads =>
    (List.zipWith (fun head (e : Entry) => head ++ e.value.toBytes) heads es).flatten

def write (o : Options) : Except WriteError Bytes := writeAfter 0 o.entries

/-- Entries up to the end of the options, newest first, and the octets after the marker. An
exhausted reader stands at the end of input or on the marker. -/
def readAfter (previous : OptionNumber) (seen : List Entry) (bs : Bytes) :
    Except ReadError (List Entry × Bytes) :=
  match _h : Entry.read previous bs with
  | .ok (e, rest) => readAfter e.number (e :: seen) rest
  | .error .exhausted => .ok (seen, bs.drop 1)
  | .error e => .error e
termination_by bs.length
decreasing_by exact Entry.length_lt_of_read _h

theorem sorted_of_readAfter {previous : OptionNumber} {seen es : List Entry} {bs rest : Bytes}
    (hp : ∀ e ∈ seen, e.number ≤ previous)
    (hs : seen.Pairwise (fun a b => b.number ≤ a.number))
    (h : readAfter previous seen bs = .ok (es, rest)) :
    es.Pairwise (fun a b => b.number ≤ a.number) := by
  fun_induction readAfter previous seen bs with
  | case1 previous seen bs e rest' hr ih =>
    have hle := Entry.le_number_of_read hr
    refine ih ?_ ?_ h
    · intro a ha
      rcases List.mem_cons.1 ha with rfl | ha
      · exact UInt32.le_refl _
      · exact UInt32.le_trans (hp a ha) hle
    · exact List.pairwise_cons.2 ⟨fun a ha => UInt32.le_trans (hp a ha) hle, hs⟩
  | case2 => cases h; exact hs
  | case3 => cases h

/-- The options at the front of the input, and the octets after their end. -/
def read (bs : Bytes) : Except ReadError (Options × Bytes) :=
  match h : readAfter 0 [] bs with
  | .ok (es, rest) =>
    .ok (⟨es.reverse, List.pairwise_reverse.2
      (sorted_of_readAfter (by simp) List.Pairwise.nil h)⟩, rest)
  | .error e => .error e

end Coap.Options
