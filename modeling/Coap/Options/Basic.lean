import Coap.Options.Entry

/-! The options of a message: a list sorted by number, in which options of one number keep the
order in which they were added. The view of a collection is `getAll`, the values by number. -/
namespace Coap

structure Options where
  entries : List Entry
  sorted : entries.Pairwise (·.number ≤ ·.number)
  deriving DecidableEq

namespace Options

def empty : Options := ⟨[], List.Pairwise.nil⟩

instance : EmptyCollection Options := ⟨empty⟩

instance : Inhabited Options := ⟨empty⟩

@[ext] theorem ext {o p : Options} (h : o.entries = p.entries) : o = p := by
  cases o; cases p; cases h; rfl

def size (o : Options) : Nat := o.entries.length

def isEmpty (o : Options) : Bool := o.entries.isEmpty

/-- The values of an option, in the order in which they were added. -/
def getAll (o : Options) (n : OptionNumber) : List OptionValue :=
  (o.entries.filter (·.number == n)).map (·.value)

/-- The first value of an option. -/
def get? (o : Options) (n : OptionNumber) : Option OptionValue := (o.getAll n).head?

def contains (o : Options) (n : OptionNumber) : Bool := (o.get? n).isSome

/-- A new entry goes behind the entries of its number and before those of larger ones. -/
def insertEntry (e : Entry) (es : List Entry) : List Entry :=
  es.takeWhile (·.number ≤ e.number) ++ e :: es.dropWhile (·.number ≤ e.number)

theorem insertEntry_nil (e : Entry) : insertEntry e [] = [e] := rfl

theorem insertEntry_cons (e a : Entry) (es : List Entry) :
    insertEntry e (a :: es) =
      if a.number ≤ e.number then a :: insertEntry e es else e :: a :: es := by
  by_cases h : a.number ≤ e.number <;> simp [insertEntry, h]

theorem mem_insertEntry {e a : Entry} {es : List Entry} :
    a ∈ insertEntry e es ↔ a = e ∨ a ∈ es := by
  induction es with
  | nil => simp [insertEntry_nil]
  | cons b es ih =>
    rw [insertEntry_cons]
    split <;> simp [ih]
    grind

theorem sorted_insertEntry (e : Entry) {es : List Entry}
    (h : es.Pairwise (·.number ≤ ·.number)) :
    (insertEntry e es).Pairwise (·.number ≤ ·.number) := by
  induction es with
  | nil => simp [insertEntry_nil]
  | cons a es ih =>
    obtain ⟨ha, hes⟩ := List.pairwise_cons.1 h
    rw [insertEntry_cons]
    split
    · rename_i hle
      refine List.pairwise_cons.2 ⟨fun b hb => ?_, ih hes⟩
      rcases mem_insertEntry.1 hb with rfl | hb
      · exact hle
      · exact ha b hb
    · rename_i hgt
      have hlt : e.number ≤ a.number := (UInt32.le_total _ _).resolve_left hgt
      refine List.pairwise_cons.2 ⟨fun b hb => ?_, h⟩
      rcases List.mem_cons.1 hb with rfl | hb
      · exact hlt
      · exact UInt32.le_trans hlt (ha b hb)

/-- Adds a value behind those that the option has. -/
def push (o : Options) (n : OptionNumber) (v : OptionValue) : Options :=
  ⟨insertEntry ⟨n, v⟩ o.entries, sorted_insertEntry _ o.sorted⟩

/-- Drops every value of an option. -/
def erase (o : Options) (n : OptionNumber) : Options :=
  ⟨o.entries.filter (·.number != n), o.sorted.filter _⟩

/-- The collection without an option, and how many values that option had. -/
def remove (o : Options) (n : OptionNumber) : Nat × Options :=
  (o.size - (o.erase n).size, o.erase n)

/-- Makes a value the only one of its option. -/
def set (o : Options) (n : OptionNumber) (v : OptionValue) : Options := (o.erase n).push n v

def pushAll (o : Options) (n : OptionNumber) (vs : List OptionValue) : Options :=
  vs.foldl (·.push n ·) o

/-- The value of an option that may be absent. -/
def push? (o : Options) (n : OptionNumber) : Option OptionValue → Options
  | some v => o.push n v
  | none => o

def ofList (es : List Entry) : Options := es.foldl (fun o e => o.push e.number e.value) empty

end Options
end Coap
