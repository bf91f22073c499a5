/-! Sets of code points as closed ranges that ascend and lie apart. -/
namespace Coap.Text

/-- Looks a code point up in ascending ranges: no range behind one that begins too late holds it. -/
def inRanges : List (Nat × Nat) → Nat → Bool
  | [], _ => false
  | (lo, hi) :: rs, n => lo ≤ n && (n ≤ hi || inRanges rs n)

end Coap.Text
