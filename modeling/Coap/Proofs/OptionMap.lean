import Coap.Message.Basic
import Coap.Proofs.Writing
import Mathlib.Logic.Function.Basic

/-!
# Options refine a map from numbers to values

A collection is known by the values of each number: what an edit does to it is said of the map
alone, and two collections with one map are equal. So it never matters how options of different
numbers were interleaved when they were added.
-/
namespace Coap
namespace Options

/-- Options as a map: the values of each number, in order. -/
abbrev Values := OptionNumber → List OptionValue

/-- The values that a row of entries has for each number. -/
def valuesOf (es : List Entry) : Values := fun n => (es.filter (·.number == n)).map (·.value)

variable {o p : Options} {n k : OptionNumber} {v w : OptionValue} {es fs : List Entry}

theorem getAll_eq (o : Options) : o.getAll = valuesOf o.entries := rfl

theorem valuesOf_cons (e : Entry) (es : List Entry) (n : OptionNumber) :
    valuesOf (e :: es) n = if e.number = n then e.value :: valuesOf es n else valuesOf es n := by
  by_cases h : e.number = n <;> simp [valuesOf, h]

theorem valuesOf_append (es fs : List Entry) (n : OptionNumber) :
    valuesOf (es ++ fs) n = valuesOf es n ++ valuesOf fs n := by
  simp [valuesOf]

theorem valuesOf_eq_nil_iff : valuesOf es n = [] ↔ ∀ e ∈ es, e.number ≠ n := by
  simp [valuesOf, List.filter_eq_nil_iff]

/-! ## Adding and dropping -/

/-- A new entry goes where any search for the end of the numbers up to its own would put it. -/
theorem insertEntry_append {e : Entry} {front back : List Entry}
    (hfront : ∀ a ∈ front, a.number ≤ e.number) (hback : ∀ a ∈ back, e.number < a.number) :
    insertEntry e (front ++ back) = front ++ e :: back := by
  induction front with
  | nil =>
    cases back with
    | nil => rfl
    | cons b back =>
      have hlarger : ¬ b.number ≤ e.number := UInt32.not_le.2 (hback b List.mem_cons_self)
      rw [List.nil_append, insertEntry_cons, if_neg hlarger]
      rfl
  | cons a front ih =>
    rw [List.forall_mem_cons] at hfront
    rw [List.cons_append, insertEntry_cons, if_pos hfront.1, ih hfront.2]
    rfl

/-- In a sorted row the numbers up to a given one come first. -/
theorem exists_partition (hsorted : es.Pairwise (·.number ≤ ·.number)) (n : OptionNumber) :
    ∃ front back, es = front ++ back ∧ (∀ a ∈ front, a.number ≤ n) ∧
      ∀ a ∈ back, n < a.number := by
  induction es with
  | nil => exact ⟨[], [], rfl, List.forall_mem_nil _, List.forall_mem_nil _⟩
  | cons a es ih =>
    obtain ⟨ha, hes⟩ := List.pairwise_cons.1 hsorted
    by_cases hle : a.number ≤ n
    · obtain ⟨front, back, rfl, hfront, hback⟩ := ih hes
      exact ⟨a :: front, back, rfl, List.forall_mem_cons.2 ⟨hle, hfront⟩, hback⟩
    · have hlt : n < a.number := UInt32.not_le.1 hle
      refine ⟨[], a :: es, rfl, List.forall_mem_nil _, List.forall_mem_cons.2 ⟨hlt, ?_⟩⟩
      exact fun b hb => UInt32.lt_of_lt_of_le hlt (ha b hb)

theorem valuesOf_insertEntry (e : Entry) (hsorted : es.Pairwise (·.number ≤ ·.number)) :
    valuesOf (insertEntry e es) n =
      if e.number = n then valuesOf es n ++ [e.value] else valuesOf es n := by
  obtain ⟨front, back, rfl, hfront, hback⟩ := exists_partition hsorted e.number
  rw [insertEntry_append hfront hback, valuesOf_append, valuesOf_append, valuesOf_cons]
  split
  · rename_i hn
    -- Nothing of this number stands behind the new entry.
    have hnone : valuesOf back n = [] := by
      rw [valuesOf_eq_nil_iff, ← hn]
      intro b hb heq
      exact UInt32.lt_irrefl _ (heq ▸ hback b hb)
    rw [hnone, List.append_nil]
  · rfl

theorem getAll_push (o : Options) (n : OptionNumber) (v : OptionValue) :
    (o.push n v).getAll = Function.update o.getAll n (o.getAll n ++ [v]) := by
  funext k
  rw [getAll_eq, getAll_eq, push, valuesOf_insertEntry ⟨n, v⟩ o.sorted, Function.update_apply]
  by_cases hk : n = k
  · rw [if_pos hk, if_pos hk.symm, hk]
  · rw [if_neg hk, if_neg (Ne.symm hk)]

theorem getAll_erase (o : Options) (n : OptionNumber) :
    (o.erase n).getAll = Function.update o.getAll n [] := by
  funext k
  rw [Function.update_apply]
  split
  · rename_i hk
    rw [getAll_eq, valuesOf_eq_nil_iff, hk]
    intro e he
    simpa using (List.mem_filter.1 he).2
  · rename_i hk
    have hsame : ∀ e : Entry, ((e.number == k) && (e.number != n)) = (e.number == k) := by
      intro e
      by_cases he : e.number = k <;> simp [he, hk]
    simp only [getAll, erase, List.filter_filter, hsame]

theorem getAll_set (o : Options) (n : OptionNumber) (v : OptionValue) :
    (o.set n v).getAll = Function.update o.getAll n [v] := by
  rw [set, getAll_push, getAll_erase, Function.update_self, Function.update_idem, List.nil_append]

/-- Dropping an option tells how many values it had. -/
theorem remove_fst (o : Options) (n : OptionNumber) : (o.remove n).1 = (o.getAll n).length := by
  have hsplit : o.size = (o.getAll n).length + (o.erase n).size := by
    rw [getAll, List.length_map]
    exact List.length_eq_length_filter_add _
  rw [remove, hsplit, Nat.add_sub_cancel_right]

theorem contains_iff : o.contains n = true ↔ o.getAll n ≠ [] := by
  rw [contains, get?, List.isSome_head?]

/-! ## One map, one collection -/

/-- The first of a sorted row has the least number that the row has values of. -/
theorem head_number_le {a e : Entry} (hsorted : (a :: es).Pairwise (·.number ≤ ·.number))
    (h : valuesOf (a :: es) e.number ≠ []) : a.number ≤ e.number := by
  rw [ne_eq, valuesOf_eq_nil_iff] at h
  push Not at h
  obtain ⟨b, hb, hnumber⟩ := h
  rw [← hnumber]
  rcases List.mem_cons.1 hb with rfl | hb
  · exact UInt32.le_refl _
  · exact (List.pairwise_cons.1 hsorted).1 b hb

theorem valuesOf_cons_ne_nil (a : Entry) (es : List Entry) : valuesOf (a :: es) a.number ≠ [] := by
  rw [valuesOf_cons, if_pos rfl]
  exact List.cons_ne_nil _ _

/-- Rows that are sorted and have the same values of each number are equal. -/
theorem eq_of_valuesOf_eq (hes : es.Pairwise (·.number ≤ ·.number))
    (hfs : fs.Pairwise (·.number ≤ ·.number)) (h : valuesOf es = valuesOf fs) : es = fs := by
  induction es generalizing fs with
  | nil =>
    cases fs with
    | nil => rfl
    | cons b fs => exact absurd (congrFun h b.number).symm (valuesOf_cons_ne_nil b fs)
  | cons a es ih =>
    cases fs with
    | nil => exact absurd (congrFun h a.number) (valuesOf_cons_ne_nil a es)
    | cons b fs =>
      -- The heads have the least number on either side, so they have the same number.
      have hle : a.number ≤ b.number := head_number_le hes (h ▸ valuesOf_cons_ne_nil b fs)
      have hge : b.number ≤ a.number := head_number_le hfs (h ▸ valuesOf_cons_ne_nil a es)
      have hnumber : a.number = b.number := UInt32.le_antisymm hle hge
      have hhead := congrFun h a.number
      rw [valuesOf_cons, valuesOf_cons, if_pos rfl, if_pos hnumber.symm, List.cons.injEq] at hhead
      have htail : valuesOf es = valuesOf fs := by
        funext n
        by_cases hn : a.number = n
        · rw [← hn]
          exact hhead.2
        · have hother := congrFun h n
          rwa [valuesOf_cons, valuesOf_cons, if_neg hn, if_neg (hnumber ▸ hn)] at hother
      obtain ⟨number, value⟩ := a
      obtain ⟨number', value'⟩ := b
      obtain rfl : number = number' := hnumber
      obtain rfl : value = value' := hhead.1
      rw [ih (List.pairwise_cons.1 hes).2 (List.pairwise_cons.1 hfs).2 htail]

theorem ext_getAll (h : o.getAll = p.getAll) : o = p :=
  ext (eq_of_valuesOf_eq o.sorted p.sorted h)

/-- The entries that a map has, for the numbers listed. -/
def Values.entries (f : Values) (ns : List OptionNumber) : List Entry :=
  ns.flatMap fun n => (f n).map (Entry.mk n)

theorem Values.sorted_entries (f : Values) {ns : List OptionNumber}
    (hns : ns.Pairwise (· < ·)) : (f.entries ns).Pairwise (·.number ≤ ·.number) := by
  rw [entries, List.pairwise_flatMap]
  constructor
  · intro n _
    rw [List.pairwise_map]
    exact List.pairwise_of_forall fun _ _ => UInt32.le_refl n
  · refine hns.imp ?_
    intro n k hlt a ha b hb
    obtain ⟨v, -, rfl⟩ := List.mem_map.1 ha
    obtain ⟨w, -, rfl⟩ := List.mem_map.1 hb
    exact UInt32.le_of_lt hlt

theorem Values.valuesOf_entries (f : Values) {ns : List OptionNumber}
    (hns : ns.Pairwise (· < ·)) (n : OptionNumber) :
    valuesOf (f.entries ns) n = if n ∈ ns then f n else [] := by
  induction ns with
  | nil => rfl
  | cons k ns ih =>
    obtain ⟨hlater, hrest⟩ := List.pairwise_cons.1 hns
    have hfirst : valuesOf ((f k).map (Entry.mk k)) n = if k = n then f n else [] := by
      split
      · rename_i hk
        simp [valuesOf, hk, List.filter_map, Function.comp_def]
      · rename_i hk
        rw [valuesOf_eq_nil_iff]
        simpa using fun _ _ => hk
    have hcons : f.entries (k :: ns) = (f k).map (Entry.mk k) ++ f.entries ns := rfl
    rw [hcons, valuesOf_append, hfirst, ih hrest]
    by_cases hk : k = n
    · have hnot : n ∉ ns := fun hmem => UInt32.lt_irrefl n (hk ▸ hlater n hmem)
      simp [hk, hnot]
    · simp [hk, Ne.symm hk]

/-- The entries stand number by number, and the values of one number in their order. -/
theorem entries_eq (o : Options) {ns : List OptionNumber} (hns : ns.Pairwise (· < ·))
    (hall : ∀ n, o.getAll n ≠ [] → n ∈ ns) : o.entries = Values.entries o.getAll ns := by
  apply eq_of_valuesOf_eq o.sorted (Values.sorted_entries o.getAll hns)
  funext n
  rw [Values.valuesOf_entries o.getAll hns, ← getAll_eq]
  split
  · rfl
  · rename_i hnot
    exact Decidable.not_not.1 fun h => hnot (hall n h)

theorem push_comm (o : Options) (v w : OptionValue) (h : n ≠ k) :
    (o.push n v).push k w = (o.push k w).push n v := by
  apply ext_getAll
  simp only [getAll_push, Function.update_of_ne h, Function.update_of_ne h.symm]
  exact (Function.update_comm h.symm _ _ _).symm

/-! ## Writing -/

theorem write_ne_outOfOrder {previous a b : OptionNumber} {e : Entry} (h : previous ≤ e.number) :
    e.write previous ≠ .error (.outOfOrder a b) := by
  rw [Entry.write_eq, if_neg (UInt32.not_lt.2 h)]
  split
  · simp
  · split <;> simp

theorem writeAfter_ne_outOfOrder {previous a b : OptionNumber}
    (hprevious : ∀ e ∈ es, previous ≤ e.number) (hsorted : es.Pairwise (·.number ≤ ·.number)) :
    writeAfter previous es ≠ .error (.outOfOrder a b) := by
  induction es generalizing previous with
  | nil =>
    rw [writeAfter_nil]
    exact nofun
  | cons e es ih =>
    obtain ⟨hrest, hes⟩ := List.pairwise_cons.1 hsorted
    have hfirst := write_ne_outOfOrder (a := a) (b := b) (hprevious e List.mem_cons_self)
    have htail := ih hrest hes
    rw [writeAfter_cons]
    cases hwrite : e.write previous with
    | error cause =>
      rw [hwrite] at hfirst
      exact hfirst
    | ok bs =>
      cases hrow : writeAfter e.number es with
      | error cause =>
        rw [hrow] at htail
        exact htail
      | ok tail => exact nofun

/-! ## Edits -/

/-- Numbers, each with values for it. -/
abbrev Fields := List (OptionNumber × List OptionValue)

namespace Values

/-- Some numbers lose their values. -/
def clear (f : Values) (ns : List OptionNumber) : Values := fun n => if n ∈ ns then [] else f n

/-- Each number gets the values listed for it behind those that it has. -/
def add (f : Values) (fields : Fields) : Values :=
  fun n => f n ++ (fields.filter (·.1 == n)).flatMap (·.2)

theorem clear_nil (f : Values) : f.clear [] = f := by
  funext k
  simp [clear]

theorem add_nil (f : Values) : f.add [] = f := by
  funext k
  simp [add]

theorem clear_cons (f : Values) (n : OptionNumber) (ns : List OptionNumber) :
    f.clear (n :: ns) = clear (Function.update f n []) ns := by
  funext k
  by_cases hk : k = n <;> simp [clear, hk]

theorem add_cons (f : Values) (n : OptionNumber) (vs : List OptionValue) (fields : Fields) :
    f.add ((n, vs) :: fields) = add (Function.update f n (f n ++ vs)) fields := by
  funext k
  by_cases hk : n = k
  · simp [add, hk]
  · simp [add, hk, Function.update_of_ne (Ne.symm hk)]

end Values

/-- Drops every value of some options. -/
def eraseAll (o : Options) (ns : List OptionNumber) : Options := ns.foldl erase o

/-- Adds values of several options. -/
def addAll (o : Options) (fields : Fields) : Options :=
  fields.foldl (fun o f => o.pushAll f.1 f.2) o

theorem getAll_pushAll (o : Options) (n : OptionNumber) (vs : List OptionValue) :
    (o.pushAll n vs).getAll = Function.update o.getAll n (o.getAll n ++ vs) := by
  induction vs generalizing o with
  | nil => simp [pushAll]
  | cons v vs ih =>
    have hstep : o.pushAll n (v :: vs) = (o.push n v).pushAll n vs := rfl
    rw [hstep, ih, getAll_push, Function.update_self, Function.update_idem, List.append_assoc]
    rfl

theorem getAll_eraseAll (o : Options) (ns : List OptionNumber) :
    (o.eraseAll ns).getAll = Values.clear o.getAll ns := by
  induction ns generalizing o with
  | nil => exact (Values.clear_nil _).symm
  | cons n ns ih =>
    rw [Values.clear_cons, ← getAll_erase, ← ih]
    rfl

theorem getAll_addAll (o : Options) (fields : Fields) :
    (o.addAll fields).getAll = Values.add o.getAll fields := by
  induction fields generalizing o with
  | nil => exact (Values.add_nil _).symm
  | cons f fields ih =>
    obtain ⟨n, vs⟩ := f
    rw [Values.add_cons, ← getAll_pushAll, ← ih]
    rfl

theorem addAll_append (o : Options) (fields fields' : Fields) :
    o.addAll (fields ++ fields') = (o.addAll fields).addAll fields' :=
  List.foldl_append

theorem push?_eq (o : Options) (n : OptionNumber) (v : Option OptionValue) :
    o.push? n v = o.pushAll n v.toList := by
  cases v <;> rfl

end Options

/-- The options that a URI travels as. -/
def Uri.numbers : List OptionNumber := [.uriHost, .uriPort, .uriPath, .uriQuery]

def Uri.fields (u : Uri) : Options.Fields :=
  [(.uriHost, (u.host.map .text).toList),
    (.uriPort, (u.port.map fun p => .uint (UInt32.ofNat p.toNat)).toList),
    (.uriPath, u.path.map .text), (.uriQuery, u.query.map .text)]

/-- The options of the resource URI, if it is one. -/
def Headers.uriFields (h : Headers) : Except Uri.Error Options.Fields :=
  match h.resourceUri with
  | some s => (Uri.parse s).map Uri.fields
  | none => .ok []

/-- The options of the other fields. -/
def Headers.fields (h : Headers) : Options.Fields :=
  [(.observe, (h.observe.map fun b => .uint (Observe.ofBool b).toUint).toList),
    (.contentFormat, (h.contentFormat.map fun f => .uint f.toUint).toList),
    (.accept, (h.accept.map fun f => .uint f.toUint).toList),
    (.maxAge, (h.maxAge.map .uint).toList), (.size1, (h.size1.map .uint).toList),
    (.noResponse, (h.noResponse.map fun r => .uint r.toUint).toList),
    (.proxyUri, (h.proxyUri.map .text).toList), (.proxyScheme, (h.proxyScheme.map .text).toList),
    (.locationPath, segments '/' h.locationPath), (.locationQuery, segments '&' h.locationQuery),
    (.ifMatch, h.ifMatch.map .blob), (.etag, h.etags.map .blob),
    (.ifNoneMatch, if h.ifNoneMatch then [.empty] else [])]

namespace Options

theorem putUri_eq (o : Options) (u : Uri) :
    o.putUri u = (o.eraseAll Uri.numbers).addAll u.fields := by
  simp only [putUri, push?_eq]
  rfl

theorem getAll_putUri (o : Options) (u : Uri) :
    (o.putUri u).getAll = (Values.clear o.getAll Uri.numbers).add u.fields := by
  rw [putUri_eq, getAll_addAll, getAll_eraseAll]

theorem toOptions_eq (h : Headers) :
    h.toOptions = h.uriFields.map fun fields => empty.addAll (fields ++ h.fields) := by
  have hflag : ∀ o : Options, (if h.ifNoneMatch then o.push .ifNoneMatch .empty else o) =
      o.pushAll .ifNoneMatch (if h.ifNoneMatch then [.empty] else []) := by
    intro o
    split <;> rfl
  simp only [Headers.toOptions, Headers.uriFields, push?_eq, hflag, addAll_append]
  cases h.resourceUri with
  | none => rfl
  | some s =>
    simp only [setUri]
    cases Uri.parse s with
    | error e => rfl
    | ok u =>
      have hput : empty.putUri u = empty.addAll u.fields := putUri_eq empty u
      simp only [Except.map, hput]
      rfl

theorem getAll_ofList (es : List Entry) : (ofList es).getAll = valuesOf es := by
  have hfold : ∀ (o : Options) n, (es.foldl (fun o e => o.push e.number e.value) o).getAll n =
      o.getAll n ++ valuesOf es n := by
    induction es with
    | nil => exact fun o n => (List.append_nil _).symm
    | cons e es ih =>
      intro o n
      rw [List.foldl_cons, ih, getAll_push, valuesOf_cons]
      by_cases hn : e.number = n
      · rw [if_pos hn, hn, Function.update_self, List.append_assoc]
        rfl
      · rw [if_neg hn, Function.update_of_ne (Ne.symm hn)]
  exact funext (hfold empty)

/-- What was read has the values of the row of entries that was read. -/
theorem getAll_read (bs : Bytes) :
    ((read bs).map fun r => r.1.getAll) =
      (readAfter 0 [] bs).map fun r => valuesOf r.1.reverse := by
  unfold read
  split
  · rename_i es rest h
    exact congrArg (Except.map fun r => valuesOf r.1.reverse) h.symm
  · rename_i e h
    exact congrArg (Except.map fun r => valuesOf r.1.reverse) h.symm

/-! ## Edits -/

/-- What can be done to the options of a message. -/
inductive Edit where
  | push (n : OptionNumber) (v : OptionValue)
  | set (n : OptionNumber) (v : OptionValue)
  | remove (n : OptionNumber)
  | collect (entries : List Entry)
  | setUri (uri : String)
  | setHeaders (headers : Headers)
  | setObserve (register : Bool)
  | setContentFormat (format : ContentFormat)
  | setNoResponse (mask : NoResponse)
  | read (octets : Bytes)

/-- An edit that fails changes nothing. -/
def apply (o : Options) : Edit → Options
  | .push n v => o.push n v
  | .set n v => o.set n v
  | .remove n => (o.remove n).2
  | .collect es => ofList es
  | .setUri s => ((({ options := o } : Message).setResourceUri s).map (·.options)).toOption.getD o
  | .setHeaders h => ((({ options := o } : Message).setHeaders h).map (·.options)).toOption.getD o
  | .setObserve register => (({ options := o } : Message).setObserve register).options
  | .setContentFormat format => (({ options := o } : Message).setContentFormat format).options
  | .setNoResponse mask => (({ options := o } : Message).setNoResponse mask).options
  | .read bs => ((read bs).map (·.1)).toOption.getD o

/-- The collection that a sequence of edits builds. -/
def build (edits : List Edit) : Options := edits.foldl apply empty

/-- What an edit does to the map. -/
def Values.apply (f : Values) : Edit → Values
  | .push n v => Function.update f n (f n ++ [v])
  | .set n v => Function.update f n [v]
  | .remove n => Function.update f n []
  | .collect es => valuesOf es
  | .setUri s => ((Uri.parse s).map fun u => (f.clear Uri.numbers).add u.fields).toOption.getD f
  | .setHeaders h =>
    (h.uriFields.map fun fields => add (fun _ => []) (fields ++ h.fields)).toOption.getD f
  | .setObserve register => Function.update f .observe [.uint (Observe.ofBool register).toUint]
  | .setContentFormat format => Function.update f .contentFormat [.uint format.toUint]
  | .setNoResponse mask => Function.update f .noResponse [.uint mask.toUint]
  | .read bs => ((readAfter 0 [] bs).map fun r => valuesOf r.1.reverse).toOption.getD f

/-- The map that a sequence of edits builds. -/
def Values.build (edits : List Edit) : Values := edits.foldl Values.apply fun _ => []

theorem getAll_getD {ε : Type} (r : Except ε Options) (o : Options) :
    (r.toOption.getD o).getAll = (r.map getAll).toOption.getD o.getAll := by
  cases r <;> rfl

/-- **An edit does to the map what it does to the collection.** -/
theorem getAll_apply (o : Options) (e : Edit) : (o.apply e).getAll = Values.apply o.getAll e := by
  cases e with
  | push n v => exact getAll_push o n v
  | set n v => exact getAll_set o n v
  | remove n => exact getAll_erase o n
  | collect es => exact getAll_ofList es
  | setUri s =>
    rw [apply, getAll_getD, Message.setResourceUri, setUri, Values.apply]
    cases Uri.parse s with
    | error e => rfl
    | ok u => exact getAll_putUri o u
  | setHeaders h =>
    rw [apply, getAll_getD, Message.setHeaders, toOptions_eq, Values.apply]
    cases h.uriFields with
    | error e => rfl
    | ok fields => exact getAll_addAll empty _
  | setObserve register => exact getAll_set o _ _
  | setContentFormat format => exact getAll_set o _ _
  | setNoResponse mask => exact getAll_set o _ _
  | read bs =>
    rw [apply, getAll_getD, Values.apply, ← getAll_read]
    cases read bs <;> rfl

theorem getAll_build (edits : List Edit) : (build edits).getAll = Values.build edits :=
  (List.foldl_hom getAll fun o e => (getAll_apply o e).symm).symm

/-- **Options refine a map from numbers to values.** Whatever edits built a collection, it is
sorted, its map is what the same edits make of the empty map, and its entries are those of that map,
number by number. Adding, replacing and dropping change the values of their own number only, and
the getters read them off. Collections with one map are equal, so that values of different numbers
may be added in either order and that the order of the entries and their octets depend on the map
alone; and no entry is ever written out of order. -/
theorem refine_the_map (edits : List Edit) :
    let o := build edits
    o.entries.Pairwise (·.number ≤ ·.number) ∧
      o.getAll = Values.build edits ∧
      (∀ ns : List OptionNumber, ns.Pairwise (· < ·) →
        (∀ n, Values.build edits n ≠ [] → n ∈ ns) →
        o.entries = Values.entries (Values.build edits) ns) ∧
      (∀ n v, (o.push n v).getAll = Function.update o.getAll n (o.getAll n ++ [v])) ∧
      (∀ n v, (o.set n v).getAll = Function.update o.getAll n [v]) ∧
      (∀ n, (o.remove n).1 = (o.getAll n).length ∧
        (o.remove n).2.getAll = Function.update o.getAll n []) ∧
      (∀ n, o.get? n = (o.getAll n).head? ∧ (o.contains n = true ↔ o.getAll n ≠ [])) ∧
      (∀ n k v w, n ≠ k → (o.push n v).push k w = (o.push k w).push n v) ∧
      (∀ edits', (build edits').getAll = o.getAll →
        build edits' = o ∧ (build edits').entries = o.entries ∧ (build edits').write = o.write) ∧
      ∀ previous number, o.write ≠ .error (.outOfOrder previous number) := by
  intro o
  refine ⟨o.sorted, getAll_build edits, ?_, getAll_push o, getAll_set o, ?_, ?_, ?_, ?_, ?_⟩
  · intro ns hns hall
    rw [← getAll_build edits] at hall ⊢
    exact entries_eq o hns hall
  · exact fun n => ⟨remove_fst o n, getAll_erase o n⟩
  · exact fun n => ⟨rfl, contains_iff⟩
  · exact fun n k v w => push_comm o v w
  · intro edits' hmap
    have heq := ext_getAll hmap
    exact ⟨heq, congrArg entries heq, congrArg write heq⟩
  · exact fun _ _ => writeAfter_ne_outOfOrder (fun e _ => UInt32.zero_le) o.sorted

/-- A path of two segments, and a host that comes before, between or behind them. -/
def sampleEdits : List Edit :=
  [.push .uriPath (.text "a"), .push .uriHost (.text "h"), .push .uriPath (.text "b")]

theorem refine_the_map_sample :
    let hostFirst : List Edit :=
      [.push .uriHost (.text "h"), .push .uriPath (.text "a"), .push .uriPath (.text "b")]
    (build sampleEdits).entries =
        Values.entries (Values.build sampleEdits) [.uriHost, .uriPath] ∧
      (build hostFirst).getAll = (build sampleEdits).getAll ∧
      (build hostFirst).entries = (build sampleEdits).entries ∧
      (build sampleEdits).write = .ok [0x31, 104, 0x81, 97, 0x01, 98] := by
  intro hostFirst
  obtain ⟨-, hmap, hentries, -, -, -, -, -, hequal, -⟩ := refine_the_map sampleEdits
  obtain ⟨-, hmap', -⟩ := refine_the_map hostFirst
  have hne : OptionNumber.uriPath ≠ .uriHost := by decide
  have hsame : (build hostFirst).getAll = (build sampleEdits).getAll := by
    rw [hmap, hmap']
    funext n
    simp only [hostFirst, sampleEdits, Values.build, Values.apply, List.foldl_cons, List.foldl_nil,
      Function.update_apply]
    grind
  have hall : ∀ n, Values.build sampleEdits n ≠ [] → n ∈ [OptionNumber.uriHost, .uriPath] := by
    intro n hn
    by_contra hnot
    rw [List.mem_cons, List.mem_singleton, not_or] at hnot
    apply hn
    simp [sampleEdits, Values.build, Values.apply, hnot]
  exact ⟨hentries _ (by decide) hall, hsame, (hequal hostFirst hsame).2.1, by decide +kernel⟩

end Options
end Coap
